import Panackelty.Http.Framing
import Panackelty.Vm.BigintText

/-!
# The responses of the routed server

`packages/http/src/response_policy.panack` writes the response of a handler; the parser of responses
was written apart from it.  A head is a list of lines, and no line that the policy lets through has
a carriage return in it, so the first empty line is the one that the writer put at the end.

* `routedWire`: the writer.
* `IsLine`, `encodeLines`: lines and their bytes; `cut_headEnd_encodeLines` finds the end of a head.
* `headerLines_encodeLines`: the loop over header lines reads back the lines one by one.
* `written_of_routedWire`: what the writer wrote.
* `routedWire_parsed`: the parser reads exactly that response, where it allows a body.
-/

namespace Panackelty.Http

open Library List Nat Bool
open Vm (decimalText)
open Str (ascii asciiBytes)

variable {data : Bytes} {bodyLimit n : ℕ}

/-! ## The writer -/

/-- `reason_phrase`. -/
def reasonPhrase (status : ℕ) : String :=
  if status = 200 then "OK"
  else if status = 201 then "Created"
  else if status = 202 then "Accepted"
  else if status = 204 then "No Content"
  else if status = 301 then "Moved Permanently"
  else if status = 302 then "Found"
  else if status = 304 then "Not Modified"
  else if status = 308 then "Permanent Redirect"
  else if status = 400 then "Bad Request"
  else if status = 401 then "Unauthorized"
  else if status = 403 then "Forbidden"
  else if status = 404 then "Not Found"
  else if status = 405 then "Method Not Allowed"
  else if status = 408 then "Request Timeout"
  else if status = 413 then "Content Too Large"
  else if status = 415 then "Unsupported Media Type"
  else if status = 417 then "Expectation Failed"
  else if status = 431 then "Request Header Fields Too Large"
  else if status = 500 then "Internal Server Error"
  else if status = 501 then "Not Implemented"
  else if status = 503 then "Service Unavailable"
  else if status = 504 then "Gateway Timeout"
  else if status = 505 then "HTTP Version Not Supported"
  else "Response"

/-- `header_name_valid`. -/
def headerNameValid (value : Str) : Bool :=
  !value.bytes.isEmpty && value.bytes.all fun b => tokenByte b.toNat

/-- `header_value_valid`. -/
def headerValueValid (value : Str) : Bool := value.bytes.all fun b => fieldByte b.toNat

/-- `lower` of the response policy. -/
def lower (value : Str) : Str := decodeUtf8 (value.bytes.map lowerByte)

/-- A header that a handler may set. -/
def headerAllowed (header : Header) : Bool :=
  headerNameValid header.name && headerValueValid header.value &&
    lower header.name != ascii "content-length" &&
    lower header.name != ascii "transfer-encoding" && lower header.name != ascii "connection"

/-- A header line without its end. -/
def fieldLine (header : Header) : Bytes := header.name.bytes ++ 58 :: 32 :: header.value.bytes

/-- The status line without its end. -/
def statusLine (status : ℕ) : Bytes :=
  asciiBytes "HTTP/1.1 " ++ decimalText status ++ 32 :: asciiBytes (reasonPhrase status)

/-- The body of the loop of `routed_wire`, with `valid` and `head`. -/
def routedField (state : Bool × Bytes) (header : Header) : Bool × Bytes :=
  let valid := state.1 && headerAllowed header
  if valid then
    let field := fieldLine header ++ crlf
    if state.2.length + field.length > 16384 then (false, state.2) else (true, state.2 ++ field)
  else (false, state.2)

/-- `routed_wire`. -/
def routedWire (status : ℕ) (headers : List Header) (body : Bytes) : Except String Bytes :=
  let valid := decide (200 ≤ status ∧ status ≤ 599 ∧ body.length ≤ 1048576) &&
    !((status == 204 || status == 304) && body.length != 0)
  let (valid, head) := headers.foldl routedField (valid, statusLine status ++ crlf)
  let head := if valid && status != 204 && status != 304 then
    head ++ (asciiBytes "Content-Length: " ++ decimalText body.length ++ crlf) else head
  let head := head ++ (asciiBytes "Connection: close" ++ crlf ++ crlf)
  if valid && decide (head.length ≤ 16384) then .ok (head ++ body)
  else .error "invalid HTTP response or response limit exceeded"

/-! ## Lines -/

/-- A line is not empty and has no carriage return. -/
structure IsLine (line : Bytes) : Prop where
  ne_nil : line ≠ []
  no_return : ∀ b ∈ line, b ≠ 13

/-- The bytes of lines. -/
def encodeLines (lines : List Bytes) : Bytes := lines.flatMap fun line => line ++ crlf

@[simp] theorem encodeLines_cons (line : Bytes) (lines : List Bytes) :
    encodeLines (line :: lines) = line ++ crlf ++ encodeLines lines := rfl

@[simp] theorem encodeLines_singleton (line : Bytes) : encodeLines [line] = line ++ crlf := by
  simp [encodeLines]

theorem encodeLines_append (lines more : List Bytes) :
    encodeLines (lines ++ more) = encodeLines lines ++ encodeLines more :=
  flatMap_append

/-- Nothing that starts with a carriage return starts inside a line. -/
theorem cut_of_no_return {sep : Bytes} (line s : Bytes) (hsep : sep.head? = some 13)
    (h : ∀ b ∈ line, b ≠ 13) :
    cut sep (line ++ s) = (cut sep s).map fun p => (line ++ p.1, p.2) := by
  induction line with
  | nil => exact Option.map_id'.symm
  | cons b line ih =>
    have hb : ¬ sep <+: b :: (line ++ s) := by
      intro hpre
      cases sep with
      | nil => cases hsep
      | cons c sep =>
        cases hsep
        exact h b mem_cons_self (cons_prefix_cons.mp hpre).1.symm
    rw [cons_append, cut_skip hb, ih fun c hc => h c (mem_cons_of_mem _ hc), Option.map_map]
    rfl

theorem cut_crlf_line {line : Bytes} (h : IsLine line) (s : Bytes) :
    cut crlf (line ++ crlf ++ s) = some (line, s) := by
  rw [append_assoc, cut_of_no_return line _ rfl h.no_return,
    cut_here (by simp) (prefix_append crlf s)]
  simp

theorem cut_headEnd_encodeLines {lines : List Bytes} (h : ∀ line ∈ lines, IsLine line)
    (hne : lines ≠ []) (body : Bytes) : ∃ text, encodeLines lines = text ++ crlf ∧
      cut headEnd (encodeLines lines ++ crlf ++ body) = some (text, body) := by
  induction lines with
  | nil => exact absurd rfl hne
  | cons line lines ih =>
    have hline := h line mem_cons_self
    have hassoc : encodeLines (line :: lines) ++ crlf ++ body =
        line ++ (crlf ++ (encodeLines lines ++ crlf ++ body)) := by
      rw [encodeLines_cons]
      simp
    rw [hassoc, cut_of_no_return line _ rfl hline.no_return, encodeLines_cons]
    rcases lines with _ | ⟨next, lines⟩
    · -- the line end of the last line and the empty line
      refine ⟨line, by simp [encodeLines], ?_⟩
      have hhere : headEnd <+: crlf ++ (encodeLines [] ++ crlf ++ body) := ⟨body, rfl⟩
      rw [cut_here (by simp) hhere]
      simp [encodeLines]
    have hnext := h next (mem_cons_of_mem _ mem_cons_self)
    obtain ⟨text, htext, hcut⟩ := ih (fun line hl => h line (mem_cons_of_mem _ hl)) (by simp)
    refine ⟨line ++ crlf ++ text, by rw [htext]; simp, ?_⟩
    -- the next line starts with another byte than a carriage return
    obtain ⟨b, rest, hb⟩ := exists_cons_of_ne_nil hnext.ne_nil
    have hb13 : b ≠ 13 := hnext.no_return b (by rw [hb]; exact mem_cons_self)
    have hhere : ¬ headEnd <+: crlf ++ (encodeLines (next :: lines) ++ crlf ++ body) := by
      rw [encodeLines_cons, hb]
      intro hpre
      simp only [cons_append, nil_append, cons_prefix_cons] at hpre
      exact hb13 hpre.2.2.1.symm
    have hafter : ¬ headEnd <+: 10 :: (encodeLines (next :: lines) ++ crlf ++ body) := by
      intro hpre
      exact absurd (cons_prefix_cons.mp hpre).1 (by decide)
    have hskip : cut headEnd (crlf ++ (encodeLines (next :: lines) ++ crlf ++ body)) =
        some (crlf ++ text, body) := by
      rw [show crlf ++ (encodeLines (next :: lines) ++ crlf ++ body) =
        13 :: 10 :: (encodeLines (next :: lines) ++ crlf ++ body) from rfl] at hhere ⊢
      rw [cut_skip hhere, cut_skip hafter, hcut]
      rfl
    rw [hskip]
    simp

/-! ## Reading lines -/

theorem parseHeader_copyBytes (data : Bytes) (start stop : ℕ) : parseHeader data start stop =
      parseHeader (copyBytes data start stop) 0 (copyBytes data start stop).length := by
  rw [parseHeader, parseHeader, copyBytes_length, drop_zero]

theorem length_copyBytes {data : Bytes} {start stop : ℕ} (h : stop ≤ data.length) :
    (copyBytes data start stop).length = stop - start := by
  rw [copyBytes, length_drop, length_take, min_eq_left h]

/-- A line with the header that it parses to. -/
structure ParsedLine (parsed : Bytes × Header) : Prop where
  line : IsLine parsed.1
  parse : parseHeader parsed.1 0 parsed.1.length = .ok parsed.2

theorem headerLines_encodeLines {σ : Type} {field : σ → Header → Except HttpError σ} {headerEnd : ℕ}
    (hdata : headerEnd + 2 ≤ data.length) (parsed : List (Bytes × Header)) :
    ∀ {fuel cur : ℕ} {fields : σ}, (∀ p ∈ parsed, ParsedLine p) →
      copyBytes data cur (headerEnd + 2) = encodeLines (parsed.map Prod.fst) →
      parsed.length ≤ fuel → headerLines field data headerEnd fuel cur fields =
        (parsed.map Prod.snd).foldlM field fields := by
  induction parsed with
  | nil =>
    intro fuel cur fields _ hcopy _
    have hlen := @length_copyBytes _ cur _ hdata
    rw [hcopy] at hlen
    have hend : headerEnd + 2 - cur = 0 := hlen.symm
    cases fuel with
    | zero => rfl
    | succ fuel =>
      rw [headerLines, if_neg (by omega)]
      rfl
  | cons p parsed ih =>
    intro fuel cur fields hprs hcopy hfuel
    have hp := hprs p mem_cons_self
    have hlen := @length_copyBytes _ cur _ hdata
    rw [hcopy, map_cons, encodeLines_cons, length_append, length_append] at hlen
    have hpos := length_pos_iff.mpr hp.line.ne_nil
    have hcrlf : crlf.length = 2 := rfl
    rcases fuel with _ | fuel
    · rw [length_cons] at hfuel
      omega
    have hfind : findCrlf data cur (headerEnd + 2) = some (cur + p.1.length) := by
      rw [findCrlf_eq_cut, hcopy, map_cons, encodeLines_cons, cut_crlf_line hp.line]
      rfl
    have hline : copyBytes data cur (cur + p.1.length) = p.1 := by
      have htake : copyBytes data cur (cur + p.1.length) =
          (copyBytes data cur (headerEnd + 2)).take p.1.length := by
        rw [copyBytes, copyBytes, take_drop, take_take, min_eq_left (by omega), add_comm]
      rw [htake, hcopy, map_cons, encodeLines_cons, append_assoc, take_left]
    have hrest : copyBytes data (cur + p.1.length + 2) (headerEnd + 2) =
        encodeLines (parsed.map Prod.fst) := by
      have hdrop : copyBytes data (cur + p.1.length + 2) (headerEnd + 2) =
          (copyBytes data cur (headerEnd + 2)).drop (p.1 ++ crlf).length := by
        rw [copyBytes, copyBytes, drop_drop, length_append, hcrlf, add_assoc]
      rw [hdrop, hcopy, map_cons, encodeLines_cons, drop_left]
    have hparse : parseHeader data cur (cur + p.1.length) = .ok p.2 := by
      rw [parseHeader_copyBytes, hline, hp.parse]
    rw [headerLines, if_pos (by omega), hfind]
    simp only [hparse, map_cons, foldlM_cons]
    cases hfield : field fields p.2 with
    | error error => rfl
    | ok fields' =>
      exact ih (fun q hq => hprs q (mem_cons_of_mem _ hq)) hrest
        (by rw [length_cons] at hfuel; omega)

/-! ## Header lines of the writer -/

theorem decodeUtf8_of_utf8 (h : utf8 data) : decodeUtf8 data = ⟨data, h⟩ :=
  dif_pos h

/-- A field value without the blanks around it. -/
def trimValue (value : Str) : Str := decodeUtf8 (trimOws value.bytes)

/-- What the parser makes of a header. -/
def trimHeader (header : Header) : Header := ⟨header.name, trimValue header.value⟩

theorem tokenByte_ne (h : tokenByte n) : n ≠ 9 ∧ n ≠ 13 ∧ n ≠ 32 ∧ n ≠ 58 := by
  refine ⟨?_, ?_, ?_, ?_⟩ <;>
    · rintro rfl
      exact absurd h (by decide)

theorem fieldByte_ne (h : fieldByte n) : n ≠ 13 := by
  rintro rfl
  exact absurd h (by decide)

theorem ne_of_toNat_ne {b c : UInt8} (h : b.toNat ≠ c.toNat) : b ≠ c := fun heq => h (by rw [heq])

theorem trimOws_blank (value : Bytes) : trimOws (32 :: value) = trimOws value := by
  unfold trimOws
  rw [dropWhile_cons_of_pos (by decide)]

section Fields

variable {header : Header}

theorem line_fieldLine (hname : headerNameValid header.name)
    (hval : headerValueValid header.value) : IsLine (fieldLine header) := by
  simp only [headerNameValid, and_eq_true] at hname
  refine ⟨by simp [fieldLine], fun b hb => ?_⟩
  rw [fieldLine, mem_append, mem_cons, mem_cons] at hb
  rcases hb with hb | rfl | rfl | hb
  · exact ne_of_toNat_ne (tokenByte_ne (all_eq_true.mp hname.2 b hb)).2.1
  · decide
  · decide
  · exact ne_of_toNat_ne (fieldByte_ne (all_eq_true.mp hval b hb))

/-- A valid header is read back, but for the blanks around its value. -/
theorem parsedLine_fieldLine (hname : headerNameValid header.name)
    (hval : headerValueValid header.value) :
    ParsedLine (fieldLine header, trimHeader header) := by
  refine ⟨line_fieldLine hname hval, ?_⟩
  simp only [headerNameValid, and_eq_true, not_eq_true', isEmpty_eq_false_iff] at hname
  obtain ⟨first, rest, hfirst⟩ := exists_cons_of_ne_nil hname.1
  have htoken : ∀ b ∈ header.name.bytes, tokenByte b.toNat = true := all_eq_true.mp hname.2
  have htakes : ∀ b ∈ header.name.bytes, (b != 58) = true := fun b hb =>
    bne_iff_ne.mpr (ne_of_toNat_ne (tokenByte_ne (htoken b hb)).2.2.2)
  have hows : owsByte first.toNat = false := by
    have hne := tokenByte_ne (htoken first (by rw [hfirst]; exact mem_cons_self))
    simp only [owsByte, or_eq_false_iff, beq_eq_false_iff_ne]
    exact ⟨hne.2.2.1, hne.1⟩
  have htake : (fieldLine header).takeWhile (fun b => b != 58) = header.name.bytes := by
    rw [fieldLine, takeWhile_append_of_pos htakes, takeWhile_cons_of_neg (by decide), append_nil]
  have hdrop : (fieldLine header).drop header.name.bytes.length = 58 :: 32 ::
      header.value.bytes := by
    rw [fieldLine, drop_left]
  have hcons : fieldLine header = first :: (rest ++ 58 :: 32 :: header.value.bytes) := by
    rw [fieldLine, hfirst]
    rfl
  have hvals : (32 :: header.value.bytes).all (fun b => fieldByte b.toNat) = true := by
    exact and_eq_true_iff.mpr ⟨by decide, hval⟩
  have hemp : header.name.bytes.isEmpty = false := by
    rw [hfirst]
    rfl
  rw [parseHeader, copyBytes_length, drop_zero]
  simp only [htake, hdrop]
  rw [hcons]
  simp only [hows, Bool.false_eq_true, if_false, hemp, hname.2, hvals, Bool.not_true, Bool.or_self,
    trimOws_blank, decodeUtf8_of_utf8 header.name.valid]
  rfl

end Fields

/-! ## Numbers -/

theorem asciiDigit_of_isDigit {b : UInt8} (h : Vm.IsDigit b) : asciiDigit b.toNat = true := by
  have hlow := UInt8.le_iff_toNat_le.mp h.1
  have hhigh := UInt8.le_iff_toNat_le.mp h.2
  simp only [asciiDigit, and_eq_true, decide_eq_true_eq]
  exact ⟨hlow, hhigh⟩

theorem le_foldl_digits (digits : List ℕ) : ∀ value : ℕ,
    value ≤ digits.foldl (fun value digit => value * 10 + digit) value := by
  induction digits with
  | nil => exact fun value => le_refl _
  | cons d digits ih =>
    intro value
    exact le_trans (by omega) (ih (value * 10 + d))

/-- A number within the limit is read: no prefix of its digits is above the limit. -/
theorem responseDecimalLoop_eq {limit : ℕ} (digits : Bytes) : ∀ {value : ℕ},
    (∀ b ∈ digits, Vm.IsDigit b) →
    (digits.map Vm.digitValue).foldl (fun value digit => value * 10 + digit) value ≤ limit →
    responseDecimalLoop limit digits value true false =
      .ok ((digits.map Vm.digitValue).foldl (fun value digit => value * 10 + digit) value) := by
  induction digits with
  | nil =>
    intro value _ _
    rfl
  | cons b digits ih =>
    intro value hdig hlim
    have hval : value * 10 + Vm.digitValue b ≤ limit := (le_foldl_digits _ _).trans hlim
    rw [responseDecimalLoop, if_pos (asciiDigit_of_isDigit (hdig b mem_cons_self))]
    simp only [Bool.false_or]
    have hsmall : decide (value * 10 + (b.toNat - 48) > limit) = false :=
      decide_eq_false (not_lt.mpr hval)
    rw [hsmall]
    exact ih (fun c hc => hdig c (mem_cons_of_mem _ hc)) hlim

theorem decimalText_ne_nil (n : ℕ) : decimalText n ≠ [] := by
  intro h
  have hlen := congrArg length h
  by_cases h0 : n = 0
  · subst h0
    cases h
  · rw [Vm.length_decimalText h0, length_nil, length_eq_zero_iff, digits_eq_nil_iff_eq_zero] at hlen
    exact h0 hlen

theorem parseResponseDecimal_decimalText {limit : ℕ} (h : n ≤ limit) :
    parseResponseDecimal (decimalText n) limit = .ok n := by
  have hval := Vm.bigEndian_decimalText n
  unfold Digits.bigEndian at hval
  rw [parseResponseDecimal, if_neg (by simpa using decimalText_ne_nil n),
    responseDecimalLoop_eq _ Vm.isDigit_of_mem_decimalText (by rw [hval]; exact h), hval]

theorem decimalText_status {status : ℕ} (hlow : 100 ≤ status) (hhigh : status ≤ 999) :
    decimalText status = [Vm.digitChar (status / 100), Vm.digitChar (status / 10 % 10),
      Vm.digitChar (status % 10)] := by
  have hdig : digits 10 status = [status % 10, status / 10 % 10, status / 100] := by
    rw [digits_def' (by decide) (by omega), digits_def' (by decide) (by omega),
      digits_def' (by decide) (by omega)]
    have h1 : status / 10 / 10 % 10 = status / 100 := by omega
    have h2 : status / 10 / 10 / 10 = 0 := by omega
    rw [h1, h2, digits_zero]
  rw [Vm.decimalText_of_ne_zero (by omega), Vm.digitText, hdig]
  rfl

/-! ## The status line -/

/-- A text that may stand in a status line. -/
def IsReason (text : String) : Prop :=
  (asciiBytes text).all (fun b => fieldByte b.toNat) = true

instance (text : String) : Decidable (IsReason text) := by
  unfold IsReason
  infer_instance

theorem isReason_ite {p : Prop} [Decidable p] {text other : String} (htext : IsReason text)
    (hoth : IsReason other) : IsReason (if p then text else other) := by
  by_cases hp : p
  · rwa [if_pos hp]
  · rwa [if_neg hp]

theorem isReason_reasonPhrase (status : ℕ) : IsReason (reasonPhrase status) := by
  repeat refine isReason_ite (by decide +kernel) ?_
  decide +kernel

theorem statusLine_eq {status : ℕ} (hlow : 200 ≤ status) (hhigh : status ≤ 599) :
    statusLine status = [72, 84, 84, 80, 47, 49, 46, 49, 32, Vm.digitChar (status / 100),
      Vm.digitChar (status / 10 % 10), Vm.digitChar (status % 10)] ++
        32 :: asciiBytes (reasonPhrase status) := by
  rw [statusLine, decimalText_status (by omega) (by omega)]
  rfl

theorem line_statusLine {status : ℕ} (hlow : 200 ≤ status) (hhigh : status ≤ 599) :
    IsLine (statusLine status) := by
  refine ⟨by rw [statusLine_eq hlow hhigh]; simp, fun b hb => ?_⟩
  rw [statusLine, mem_append, mem_append, mem_cons] at hb
  rcases hb with (hb | hb) | rfl | hb
  · have hall : ∀ b ∈ asciiBytes "HTTP/1.1 ", b ≠ 13 := by decide +kernel
    exact hall b hb
  · have hdigit := UInt8.le_iff_toNat_le.mp (Vm.isDigit_of_mem_decimalText b hb).1
    rintro rfl
    exact absurd hdigit (by decide)
  · decide
  · exact ne_of_toNat_ne (fieldByte_ne (all_eq_true.mp (isReason_reasonPhrase status) b hb))

theorem parseResponseStatus_line {data line reason : Bytes} {start stop : ℕ} {a b c : ℕ}
    (hline : copyBytes data start stop = line)
    (heq : line = [72, 84, 84, 80, 47, 49, 46, 49, 32, Vm.digitChar a, Vm.digitChar b,
      Vm.digitChar c] ++ 32 :: reason) (ha : a < 10) (hb : b < 10) (hc : c < 10)
    (hreason : reason.all (fun b => fieldByte b.toNat) = true)
    (hlow : 200 ≤ a * 100 + b * 10 + c) (hhigh : a * 100 + b * 10 + c ≤ 599) :
    parseResponseStatus data start stop = .ok (a * 100 + b * 10 + c) := by
  have hlen : decide (12 ≤ line.length) = true := by
    rw [heq, length_append]
    exact decide_eq_true (le_add_right 12 _)
  have htake : (line.take 6 == asciiBytes "HTTP/1") = true := by
    rw [heq]
    exact beq_iff_eq.mpr (by decide +kernel : ([72, 84, 84, 80, 47, 49] : Bytes) = _)
  have h6 : byteAt line 6 = 46 := by rw [heq]; rfl
  have h7 : byteAt line 7 = 49 := by rw [heq]; rfl
  have h8 : byteAt line 8 = 32 := by rw [heq]; rfl
  have h9 : byteAt line 9 = 48 + a := by rw [heq]; exact Vm.toNat_digitChar ha
  have h10 : byteAt line 10 = 48 + b := by rw [heq]; exact Vm.toNat_digitChar hb
  have h11 : byteAt line 11 = 48 + c := by rw [heq]; exact Vm.toNat_digitChar hc
  have hdig : (copyBytes line 9 12).all (fun b => asciiDigit b.toNat) = true := by
    have hcopy : copyBytes line 9 12 = [Vm.digitChar a, Vm.digitChar b, Vm.digitChar c] := by
      rw [heq]
      rfl
    rw [hcopy, all_eq_true]
    intro d hd
    rw [mem_cons, mem_cons, mem_singleton] at hd
    rcases hd with rfl | rfl | rfl <;> exact asciiDigit_of_isDigit
        (Vm.isDigit_digitChar (by assumption))
  have hdrop : line.drop 12 = 32 :: reason := by rw [heq]; rfl
  have hrest : (32 :: reason).all (fun b => fieldByte b.toNat) = true := by
    exact Bool.and_eq_true_iff.mpr ⟨by decide, hreason⟩
  have hhead : ((32 :: reason).head?.any fun b => b != 32) = false := rfl
  have hstat : (48 + a - 48) * 100 + (48 + b - 48) * 10 + (48 + c - 48) = a * 100 + b * 10 + c := by
    omega
  unfold parseResponseStatus
  simp only [hline, hlen, htake, h6, h7, h8, h9, h10, h11, hdig, hdrop, hrest, hhead, hstat,
    beq_self_eq_true, Bool.and_self, Bool.or_true, Bool.not_true, Bool.or_self, Bool.false_eq_true,
    if_false]
  rw [if_neg (by omega), if_neg (by omega)]

theorem parseResponseStatus_statusLine {start stop status : ℕ}
    (h : copyBytes data start stop = statusLine status) (hlow : 200 ≤ status)
      (hhigh : status ≤ 599) :
    parseResponseStatus data start stop = .ok status := by
  have hval : status / 100 * 100 + status / 10 % 10 * 10 + status % 10 = status := by omega
  rw [parseResponseStatus_line h (statusLine_eq hlow hhigh) (by omega) (by omega) (by omega)
    (isReason_reasonPhrase status) (by omega) (by omega), hval]

/-! ## What the writer writes -/

/-- The header that frames a body. -/
def contentLengthHeader (length : ℕ) : Header :=
  ⟨ascii "Content-Length", decodeUtf8 (decimalText length)⟩

/-- The field that ends a connection. -/
def connectionClose : Header := ⟨ascii "Connection", ascii "close"⟩

/-- The framing headers that follow the headers of the handler. -/
def framingHeaders (status : ℕ) (body : Bytes) : List Header :=
  (if status != 204 && status != 304 then [contentLengthHeader body.length] else []) ++
    [connectionClose]

/-- What `routed_wire` has checked and written. -/
structure Written (status : ℕ) (headers : List Header) (body wire : Bytes) : Prop where
  low : 200 ≤ status
  high : status ≤ 599
  body_le : body.length ≤ 1048576
  bodiless : status = 204 ∨ status = 304 → body = []
  allowed : ∀ header ∈ headers, headerAllowed header = true
  bytes : wire = encodeLines (statusLine status ::
    (headers ++ framingHeaders status body).map fieldLine) ++ crlf ++ body

/-- A header that leaves the response valid was allowed and is written at the end of the head. -/
theorem routedField_valid {state : Bool × Bytes} {header : Header}
    (h : (routedField state header).1) : state.1 = true ∧ headerAllowed header = true ∧
      (routedField state header).2 = state.2 ++ encodeLines [fieldLine header] := by
  unfold routedField at h ⊢
  rcases hvalid : state.1 && headerAllowed header with _ | _
  · simp only [hvalid, false_eq_true, if_false] at h
  simp only [hvalid, if_true] at h ⊢
  rw [and_eq_true] at hvalid
  refine ⟨hvalid.1, hvalid.2, ?_⟩
  by_cases hlong : state.2.length + (fieldLine header ++ crlf).length > 16384
  · rw [if_pos hlong] at h
    cases h
  · rw [if_neg hlong, encodeLines_singleton]

theorem foldl_routedField_valid (headers : List Header) : ∀ {state : Bool × Bytes},
    (headers.foldl routedField state).1 = true →
    state.1 = true ∧ (∀ header ∈ headers, headerAllowed header = true) ∧
      (headers.foldl routedField state).2 = state.2 ++ encodeLines (headers.map fieldLine) := by
  induction headers with
  | nil =>
    intro state h
    exact ⟨h, fun header hmem => (by cases hmem), by simp [encodeLines]⟩
  | cons header headers ih =>
    intro state h
    rw [foldl_cons] at h ⊢
    obtain ⟨hstep, hrest, hbytes⟩ := ih h
    obtain ⟨hstate, hhdr, hfield⟩ := routedField_valid hstep
    refine ⟨hstate, ?_, ?_⟩
    · intro other hmem
      rcases mem_cons.mp hmem with rfl | hmem
      · exact hhdr
      · exact hrest other hmem
    · rw [hbytes, hfield, append_assoc, ← encodeLines_append]
      rfl

theorem bytes_decodeUtf8_decimalText (n : ℕ) : (decodeUtf8 (decimalText n)).bytes =
    decimalText n := by
  have hascii : utf8 (decimalText n) := by
    refine Str.utf8_of_ascii fun b hb => ?_
    have hhigh := UInt8.le_iff_toNat_le.mp (Vm.isDigit_of_mem_decimalText b hb).2
    simp only [UInt8.reduceToNat] at hhigh
    omega
  rw [decodeUtf8_of_utf8 hascii]

theorem fieldLine_contentLengthHeader (length : ℕ) : fieldLine (contentLengthHeader length) =
    asciiBytes "Content-Length: " ++ decimalText length := by
  rw [fieldLine, contentLengthHeader, bytes_decodeUtf8_decimalText]
  rfl

theorem fieldLine_connectionClose : fieldLine connectionClose = asciiBytes "Connection: close" := by
  decide +kernel

theorem encodeLines_framingHeaders (status : ℕ) (body : Bytes) :
    encodeLines ((framingHeaders status body).map fieldLine) =
      (if status != 204 && status != 304 then
        asciiBytes "Content-Length: " ++ decimalText body.length ++ crlf else []) ++
      (asciiBytes "Connection: close" ++ crlf) := by
  rw [framingHeaders, map_append, encodeLines_append, map_singleton, fieldLine_connectionClose]
  cases status != 204 && status != 304 with
  | false => simp only [false_eq_true, if_false, map_nil, encodeLines_singleton]; rfl
  | true => simp only [if_true, map_singleton, fieldLine_contentLengthHeader, encodeLines_singleton]

theorem written_of_routedWire {status : ℕ} {headers : List Header} {body wire : Bytes}
    (h : routedWire status headers body = .ok wire) : Written status headers body wire := by
  unfold routedWire at h
  generalize hstart : (decide (200 ≤ status ∧ status ≤ 599 ∧ body.length ≤ 1048576) &&
    !((status == 204 || status == 304) && body.length != 0)) = start at h
  cases hfold : (headers.foldl routedField (start, statusLine status ++ crlf)) with
  | mk valid head =>
    simp only [hfold] at h
    rcases valid with _ | _
    · simp only [Bool.false_and, false_eq_true, if_false] at h; cases h
    obtain ⟨hchk, hallowed, hhead⟩ := foldl_routedField_valid headers
      (show (headers.foldl routedField (start, statusLine status ++ crlf)).1 = true by rw [hfold])
    rw [hfold] at hhead
    simp only at hchk hhead
    subst hchk
    rw [Bool.and_eq_true, decide_eq_true_eq] at hstart
    obtain ⟨⟨hlow, hhigh, hbody⟩, hbodiless⟩ := hstart
    refine ⟨hlow, hhigh, hbody, ?_, hallowed, ?_⟩
    · intro hstat
      by_contra hne
      have hlen := length_pos_iff.mpr hne
      have htrue : ((status == 204 || status == 304) && body.length != 0) = true := by
        rw [Bool.and_eq_true, or_eq_true, beq_iff_eq, beq_iff_eq, bne_iff_ne]
        exact ⟨hstat, by omega⟩
      rw [htrue] at hbodiless
      cases hbodiless
    · have hlines : encodeLines (statusLine status ::
            (headers ++ framingHeaders status body).map fieldLine) =
          head ++ encodeLines ((framingHeaders status body).map fieldLine) := by
        rw [hhead, encodeLines_cons, map_append, encodeLines_append]
        simp
      rw [hlines, encodeLines_framingHeaders]
      simp only [Bool.true_and] at h
      generalize hfrm : (if status != 204 && status != 304 then
        head ++ (asciiBytes "Content-Length: " ++ decimalText body.length ++ crlf)
        else head) = framed at h
      have hframing : framed = head ++ (if status != 204 && status != 304 then
          asciiBytes "Content-Length: " ++ decimalText body.length ++ crlf else []) := by
        rw [← hfrm]
        cases status != 204 && status != 304 with
        | false => exact (append_nil head).symm
        | true => rfl
      by_cases hfits : (framed ++ (asciiBytes "Connection: close" ++ crlf ++ crlf)).length ≤ 16384
      · rw [decide_eq_true hfits, if_pos rfl] at h
        cases h
        rw [hframing]
        simp
      · rw [decide_eq_false hfits, if_neg (by decide)] at h
        cases h

/-! ## Reading the response -/

theorem trimOws_of_no_ows {value : Bytes} (h : ∀ b ∈ value, owsByte b.toNat = false) :
    trimOws value = value := by
  have hdrop : ∀ {bytes : Bytes}, (∀ b ∈ bytes, owsByte b.toNat = false) →
      bytes.dropWhile (fun b => owsByte b.toNat) = bytes := by
    intro bytes hbytes
    cases bytes with
    | nil => rfl
    | cons b bytes => exact dropWhile_cons_of_neg (by rw [hbytes b mem_cons_self]; decide)
  rw [trimOws, hdrop h, hdrop fun b hb => h b (mem_reverse.mp hb), reverse_reverse]

theorem framing_valid {header : Header} {status : ℕ} {body : Bytes}
    (h : header ∈ framingHeaders status body) :
    headerNameValid header.name = true ∧ headerValueValid header.value = true ∧
      trimHeader header = header := by
  have hclose : headerNameValid connectionClose.name = true ∧
      headerValueValid connectionClose.value = true ∧
      trimHeader connectionClose = connectionClose := by decide +kernel
  have hlen : header = contentLengthHeader body.length → headerNameValid header.name = true ∧
      headerValueValid header.value = true ∧ trimHeader header = header := by
    rintro rfl
    have hdig : ∀ b ∈ decimalText body.length, 48 ≤ b.toNat ∧ b.toNat ≤ 57 := fun b hb =>
      ⟨UInt8.le_iff_toNat_le.mp (Vm.isDigit_of_mem_decimalText b hb).1,
        UInt8.le_iff_toNat_le.mp (Vm.isDigit_of_mem_decimalText b hb).2⟩
    have hname : headerNameValid (ascii "Content-Length") := by decide +kernel
    refine ⟨hname, ?_, ?_⟩
    · rw [headerValueValid, contentLengthHeader, bytes_decodeUtf8_decimalText, all_eq_true]
      intro b hb
      have hb := hdig b hb
      simp only [fieldByte, or_eq_true, and_eq_true, decide_eq_true_eq]
      omega
    · rw [trimHeader, contentLengthHeader, trimValue, bytes_decodeUtf8_decimalText,
        trimOws_of_no_ows]
      intro b hb
      have hb := hdig b hb
      simp only [owsByte, or_eq_false_iff, beq_eq_false_iff_ne]
      omega
  rw [framingHeaders, mem_append, mem_singleton] at h
  rcases h with h | rfl
  · by_cases hfrm : (status != 204 && status != 304) = true
    · rw [if_pos hfrm, mem_singleton] at h
      exact hlen h
    · rw [if_neg hfrm] at h
      cases h
  · exact hclose

theorem responseField_allowed {fields : ResponseFields} {header : Header}
    (h : headerAllowed header) : responseField bodyLimit fields (trimHeader header) =
      .ok { fields with headers := fields.headers ++ [trimHeader header] } := by
  simp only [headerAllowed, and_eq_true, bne_iff_ne] at h
  obtain ⟨⟨⟨_, hlen⟩, henc⟩, _⟩ := h
  have hlen : lowerAscii (trimHeader header).name ≠ ascii "content-length" := hlen
  have henc : lowerAscii (trimHeader header).name ≠ ascii "transfer-encoding" := henc
  unfold responseField
  simp only [if_neg hlen, if_neg henc]

theorem foldlM_responseField_allowed (headers : List Header) :
    ∀ {fields : ResponseFields}, (∀ header ∈ headers, headerAllowed header = true) →
    (headers.map trimHeader).foldlM (responseField bodyLimit) fields =
      .ok { fields with headers := fields.headers ++ headers.map trimHeader } := by
  induction headers with
  | nil =>
    intro fields _
    rw [map_nil, append_nil]
    rfl
  | cons header headers ih =>
    intro fields h
    rw [map_cons, foldlM_cons, responseField_allowed (h header mem_cons_self)]
    simp only [bind, Except.bind]
    rw [ih fun other hmem => h other (mem_cons_of_mem _ hmem), append_assoc]
    rfl

/-- The framing headers give the length of the body, where the status has one. -/
theorem foldlM_responseField_framing {status : ℕ} {body : Bytes} (headers : List Header)
    (h : body.length ≤ bodyLimit) :
    (framingHeaders status body).foldlM (responseField bodyLimit) ⟨headers, none, false, false⟩ =
      .ok ⟨headers ++ framingHeaders status body,
        if status != 204 && status != 304 then some body.length else none, false, false⟩ := by
  have hclose : ∀ fields : ResponseFields, responseField bodyLimit fields connectionClose =
      .ok { fields with headers := fields.headers ++ [connectionClose] } := by
    intro fields
    have hlen : lowerAscii connectionClose.name ≠ ascii "content-length" := by decide +kernel
    have henc : lowerAscii connectionClose.name ≠ ascii "transfer-encoding" := by
      decide +kernel
    unfold responseField
    simp only [if_neg hlen, if_neg henc]
  have hframe : responseField bodyLimit ⟨headers, none, false, false⟩
      (contentLengthHeader body.length) =
      .ok ⟨headers ++ [contentLengthHeader body.length], some body.length, false, false⟩ := by
    have hname : lowerAscii (ascii "Content-Length") = ascii "content-length" := by
      decide +kernel
    unfold responseField
    simp [contentLengthHeader, hname, bytes_decodeUtf8_decimalText,
      parseResponseDecimal_decimalText h]
  rw [framingHeaders]
  cases status != 204 && status != 304 with
  | false => rfl
  | true =>
    simp only [if_true, cons_append, nil_append, foldlM_cons, hframe, hclose, bind,
      Except.bind, append_assoc]
    rfl

theorem length_le_length_encodeLines (lines : List Bytes) :
    2 * lines.length ≤ (encodeLines lines).length := by
  induction lines with
  | nil => exact le_refl 0
  | cons line lines ih =>
    have hcrlf : crlf.length = 2 := rfl
    rw [encodeLines_cons, length_append, length_append, length_cons]
    omega

section Written

variable {status : ℕ} {headers : List Header} {body wire : Bytes}

theorem Written.parsedLines (h : Written status headers body wire) :
    ∀ header ∈ headers ++ framingHeaders status body,
      headerNameValid header.name = true ∧ headerValueValid header.value = true := by
  intro header hmem
  rcases mem_append.mp hmem with hmem | hmem
  · have hallowed := h.allowed header hmem
    simp only [headerAllowed, and_eq_true] at hallowed
    exact hallowed.1.1.1
  · exact ⟨(framing_valid hmem).1, (framing_valid hmem).2.1⟩

theorem Written.cut_eq (h : Written status headers body wire) :
    ∃ text, encodeLines (statusLine status ::
        (headers ++ framingHeaders status body).map fieldLine) = text ++ crlf ∧
      wire = text ++ crlf ++ crlf ++ body ∧ cut headEnd wire = some (text, body) := by
  have hlines : ∀ line ∈ statusLine status ::
      (headers ++ framingHeaders status body).map fieldLine, IsLine line := by
    intro line hline
    rcases mem_cons.mp hline with rfl | hline
    · exact line_statusLine h.low h.high
    obtain ⟨header, hmem, rfl⟩ := mem_map.mp hline
    obtain ⟨hname, hval⟩ := h.parsedLines header hmem
    exact line_fieldLine hname hval
  obtain ⟨text, htext, hcut⟩ := cut_headEnd_encodeLines hlines (cons_ne_nil _ _) body
  refine ⟨text, htext, ?_, ?_⟩
  · rw [h.bytes, htext]
  · rw [h.bytes, hcut]

theorem map_trimHeader_framingHeaders (status : ℕ) (body : Bytes) :
    (framingHeaders status body).map trimHeader = framingHeaders status body := by
  have h : (framingHeaders status body).map trimHeader = (framingHeaders status body).map id :=
    map_congr_left fun header hmem => (framing_valid hmem).2.2
  rw [h, map_id]

theorem Written.responseHead_eq (h : Written status headers body wire) {text : Bytes}
    (htext : encodeLines (statusLine status ::
      (headers ++ framingHeaders status body).map fieldLine) = text ++ crlf)
    (hwire : wire = text ++ crlf ++ crlf ++ body) {bodyLimit : ℕ} (hlim : body.length ≤ bodyLimit) :
    responseHead wire 0 text.length bodyLimit =
      .ok ⟨status, headers.map trimHeader ++ framingHeaders status body, text.length + 4,
        if status != 204 && status != 304 then some body.length else none, false⟩ := by
  have hcrlf : crlf.length = 2 := rfl
  have hlen : wire.length = text.length + 4 + body.length := by
    rw [hwire]
    simp only [length_append, hcrlf]
  have hcopy : copyBytes wire 0 (text.length + 2) = text ++ crlf := by
    rw [copyBytes, drop_zero, hwire, append_assoc, take_left' (by simp [hcrlf])]
  have hfind : findCrlf wire 0 (text.length + 2) = some (statusLine status).length := by
    rw [findCrlf_eq_cut, hcopy, ← htext, encodeLines_cons,
      cut_crlf_line (line_statusLine h.low h.high), Option.map_some, zero_add]
  have hshort : (statusLine status).length + 2 ≤ text.length + 2 := by
    have := congrArg length htext
    rw [encodeLines_cons] at this
    simp only [length_append, hcrlf] at this
    omega
  have hstat : copyBytes wire 0 (statusLine status).length = statusLine status := by
    have htake : copyBytes wire 0 (statusLine status).length =
        (copyBytes wire 0 (text.length + 2)).take (statusLine status).length := by
      rw [copyBytes, copyBytes, drop_zero, drop_zero, take_take, min_eq_left (by omega)]
    rw [htake, hcopy, ← htext, encodeLines_cons, append_assoc, take_left]
  let parsed := (headers ++ framingHeaders status body).map fun header =>
    (fieldLine header, trimHeader header)
  have hprs : ∀ p ∈ parsed, ParsedLine p := by
    intro p hp
    obtain ⟨header, hmem, rfl⟩ := mem_map.mp hp
    obtain ⟨hname, hval⟩ := h.parsedLines header hmem
    exact parsedLine_fieldLine hname hval
  have hfst : parsed.map Prod.fst = (headers ++ framingHeaders status body).map fieldLine := by
    rw [map_map]
    rfl
  have hsnd : parsed.map Prod.snd = (headers ++ framingHeaders status body).map trimHeader := by
    rw [map_map]
    rfl
  rw [map_append, map_trimHeader_framingHeaders] at hsnd
  have hrest : copyBytes wire ((statusLine status).length + 2) (text.length + 2) =
      encodeLines (parsed.map Prod.fst) := by
    have hdrop : copyBytes wire ((statusLine status).length + 2) (text.length + 2) =
        (copyBytes wire 0 (text.length + 2)).drop (statusLine status ++ crlf).length := by
      rw [copyBytes, copyBytes, drop_zero, length_append, hcrlf]
    rw [hdrop, hcopy, ← htext, encodeLines_cons, drop_left, hfst]
  have hfuel : parsed.length ≤ text.length - 0 := by
    have hlines := length_le_length_encodeLines (parsed.map Prod.fst)
    have hcopied := @length_copyBytes wire ((statusLine status).length + 2) _
      (show text.length + 2 ≤ wire.length by omega)
    rw [hrest] at hcopied
    rw [length_map] at hlines
    omega
  unfold responseHead
  rw [hfind]
  simp only [parseResponseStatus_statusLine hstat h.low h.high]
  rw [headerLines_encodeLines (by omega) parsed hprs hrest hfuel, hsnd, foldlM_append,
    foldlM_responseField_allowed headers h.allowed]
  simp only [bind, Except.bind]
  rw [nil_append, foldlM_responseField_framing _ hlim]
  rfl

end Written

/-- Where the parser's limits allow the response, the bytes of a routed response are one response:
its head ends at the end that the writer wrote, and the parser reads the status, the headers in
order, the framing headers and the body back, unless the status is 205 and there is a body. -/
theorem routedWire_parsed {status : ℕ} {headers : List Header} {body wire : Bytes}
    {headerLimit bodyLimit : ℕ} (h : routedWire status headers body = .ok wire)
    (hheader : wire.length - body.length ≤ headerLimit) (hheaders : headerLimit ≤ httpHeaderLimit)
    (hbody : body.length ≤ bodyLimit) (hpos : 0 < bodyLimit) (hbodies : bodyLimit ≤ 1048576) :
    (∃ headerEnd, findHeaderEnd wire = some headerEnd ∧ wire.drop (headerEnd + 4) = body) ∧
    (parseResponse wire headerLimit bodyLimit =
        .ok ⟨status, headers.map trimHeader ++ framingHeaders status body, body⟩ ↔
      (status = 205 → body = [])) := by
  have hw := written_of_routedWire h
  obtain ⟨text, htext, hwire, hcut⟩ := hw.cut_eq
  have hcrlf : crlf.length = 2 := rfl
  have hlen : wire.length = text.length + 4 + body.length := by
    rw [hwire]
    simp only [length_append, hcrlf]
  have hrest : wire.drop (text.length + 4) = body := by
    rw [hwire, append_assoc text, drop_left' (by simp [hcrlf])]
  have hend : findHeaderEndFrom wire 0 = some text.length := by
    rw [findHeaderEndFrom_eq_cut, drop_zero, hcut, Option.map_some, zero_add]
  refine ⟨⟨text.length, hend, hrest⟩, ?_⟩
  have hfinal : finalHead wire headerLimit bodyLimit (wire.length + 1) 0 0 0 =
      .ok (⟨status, headers.map trimHeader ++ framingHeaders status body, text.length + 4,
        if status != 204 && status != 304 then some body.length else none, false⟩,
        0 + (text.length + 4 - 0)) := by
    rw [finalHead, hend]
    simp only [hw.responseHead_eq htext hwire hbody]
    rw [if_neg (by omega), if_neg (by have := hw.low; omega)]
  have hrem : wire.length - (text.length + 4) = body.length := by omega
  have hcopy : copyBytes wire (text.length + 4) wire.length = body := by
    rw [copyBytes, take_length, hrest]
  unfold parseResponse
  rw [if_neg (by omega), hfinal]
  simp only [hrem, hcopy]
  cases hforb : bodyForbidden status with
  | true =>
    rw [if_pos rfl]
    by_cases hnil : body = []
    · rw [if_neg (by rw [hnil]; decide), hnil]
      exact iff_of_true rfl fun _ => rfl
    rw [if_pos (by rwa [ne_eq, length_eq_zero_iff])]
    -- the other statuses without a body were checked by the writer
    have hstat : status = 205 := by
      simp only [bodyForbidden, or_eq_true, beq_iff_eq] at hforb
      rcases hforb with (h204 | h205) | h304
      · exact absurd (hw.bodiless (.inl h204)) hnil
      · exact h205
      · exact absurd (hw.bodiless (.inr h304)) hnil
    exact iff_of_false (fun h => by cases h) fun himp => hnil (himp hstat)
  | false =>
    simp only [bodyForbidden, or_eq_false_iff, beq_eq_false_iff_ne] at hforb
    obtain ⟨⟨h204, h205⟩, h304⟩ := hforb
    have hfrm : (status != 204 && status != 304) = true := by
      rw [and_eq_true, bne_iff_ne, bne_iff_ne]
      exact ⟨h204, h304⟩
    simp only [hfrm, false_eq_true, if_true, if_false, lt_irrefl, true_iff]
    exact fun hstat => absurd hstat h205

theorem routedWire_parsed_text : ∃ wire,
    routedWire 200 [⟨ascii "X-Trace", ascii " a: b "⟩] (asciiBytes "hi\r\n\r\n") = .ok wire ∧
    parseResponse wire httpHeaderLimit 1048576 = .ok ⟨200, [⟨ascii "X-Trace", ascii "a: b"⟩,
        ⟨ascii "Content-Length", ascii "6"⟩, ⟨ascii "Connection", ascii "close"⟩],
        asciiBytes "hi\r\n\r\n"⟩ := by
  have hwire : routedWire 200 [⟨ascii "X-Trace", ascii " a: b "⟩]
      (asciiBytes "hi\r\n\r\n") = .ok (asciiBytes
        "HTTP/1.1 200 OK\r\nX-Trace:  a: b \r\nContent-Length: 6\r\n" ++ asciiBytes
        "Connection: close\r\n\r\nhi\r\n\r\n") := by
    decide +kernel
  have hprs := (@routedWire_parsed _ _ _ _ httpHeaderLimit 1048576 hwire (by decide +kernel)
    (le_refl _) (by decide +kernel) (by decide) (le_refl _)).2.mpr fun h => absurd h (by decide)
  exact ⟨_, hwire, hprs.trans (by decide +kernel)⟩

/-- A response of status 205 with a body is written, and the parser rejects it. -/
theorem routedWire_reset_content : ∃ wire, routedWire 205 [] [65] = .ok wire ∧
    parseResponse wire httpHeaderLimit 1048576 =
      .error (.protocolError "body forbidden for this HTTP status") := by
  refine ⟨asciiBytes "HTTP/1.1 205 Response\r\nContent-Length: 1\r\nConnection: close\r\n\r\nA", ?_,
    ?_⟩
  · decide +kernel
  · decide +kernel

end Panackelty.Http
