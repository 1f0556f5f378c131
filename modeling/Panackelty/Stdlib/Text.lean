import Panackelty.Vm.TextLaws

/-!
# The text methods of the core library

`is_non_blank` and `first_control_character` walk over the UTF-8 bytes of a text and read the widths
of its characters off their first bytes; `ends_with` goes through the operations of the virtual
machine. A cursor into the bytes is the part of them that is still to come.

* `characterAt_encode`, `controlAt_encode`: a round of either loop sees one code point.
* `text_methods_exact`: so the methods are those of the list of code points.
-/

namespace Panackelty.Stdlib

open String (utf8EncodeChar)
open List

/-- `data.at(index)`.  Out of range it traps; text is valid UTF-8, so the bytes that the first byte
of a character announces are there, and the default is never read. -/
def byteAt (data : Bytes) (index : ℕ) : ℕ := (data.getD index 0).toNat

/-- The Unicode White_Space list of the source. -/
def whiteSpace (scalar : ℕ) : Bool :=
  (9 ≤ scalar && scalar ≤ 13) || scalar == 32 || scalar == 133 || scalar == 160 || scalar == 5760 ||
    (8192 ≤ scalar && scalar ≤ 8202) || scalar == 8232 || scalar == 8233 || scalar == 8239 ||
    scalar == 8287 || scalar == 12288

/-- The width of the character at the front and whether it is no white space. -/
def characterAt (data : Bytes) : ℕ × Bool :=
  let first := byteAt data 0
  if 240 ≤ first then (4, true)
  else if 224 ≤ first then
    (3, !whiteSpace ((first % 16) * 4096 + (byteAt data 1 % 64) * 64 + byteAt data 2 % 64))
  else if 192 ≤ first then (2, !whiteSpace ((first % 32) * 64 + byteAt data 1 % 64))
  else (1, !whiteSpace first)

/-- The loop of `is_non_blank`; a round takes at least one byte. -/
def nonBlankLoop : ℕ → Bytes → Bool
  | 0, _ => false
  | fuel + 1, data =>
    if data = [] then false
    else if (characterAt data).2 then true
    else nonBlankLoop fuel (data.drop (characterAt data).1)

/-- `Str.is_non_blank`. -/
def isNonBlank (data : Bytes) : Bool := nonBlankLoop data.length data

/-- `ControlCharacterPosition`. -/
structure ControlCharacterPosition where
  index : ℕ
  scalar : ℕ
  deriving DecidableEq

/-- The control character at the front, if there is one. -/
def controlAt (data : Bytes) : Option ℕ :=
  let first := byteAt data 0
  if first < 32 ∨ first = 127 then some first
  else if first = 194 ∧ byteAt data 1 ≤ 159 then some (byteAt data 1)
  else none

def controlWidth (first : ℕ) : ℕ :=
  if first < 128 then 1 else if first < 224 then 2 else if first < 240 then 3 else 4

/-- The loop of `first_control_character`. -/
def controlLoop : ℕ → Bytes → ℕ → Option ControlCharacterPosition
  | 0, _, _ => none
  | fuel + 1, data, index =>
    if data = [] then none
    else
      match controlAt data with
      | some scalar => some ⟨index, scalar⟩
      | none => controlLoop fuel (data.drop (controlWidth (byteAt data 0))) (index + 1)

/-- `Str.first_control_character`. -/
def firstControlCharacter (data : Bytes) : Option ControlCharacterPosition :=
  controlLoop data.length data 0

/-- `ends_with`; the difference of the lengths is exact. -/
def endsWith (value suffix : Bytes) : Except Vm.Trap Vm.Value :=
  let valueLength := Vm.utf8Characters value
  let suffixLength := Vm.utf8Characters suffix
  if suffixLength ≤ valueLength then
    Vm.startsWithAt (.str value) (.str suffix) (Vm.valueSize (valueLength - suffixLength))
  else .ok (.bool false)

/-- C0, DEL and C1. -/
def Control (c : Char) : Prop := c.toNat < 32 ∨ (127 ≤ c.toNat ∧ c.toNat ≤ 159)

instance : DecidablePred Control := fun _ => inferInstanceAs (Decidable (_ ∨ _))

/-! ## One round -/

theorem characterAt_encode (c : Char) (rest : Bytes) :
    characterAt (utf8EncodeChar c ++ rest) = ((utf8EncodeChar c).length, !whiteSpace c.toNat) := by
  rcases utf8EncodeChar_cases c with ⟨b0, he, hv, h0⟩ | ⟨b0, b1, he, hv, h0, h1⟩ |
    ⟨b0, b1, b2, he, hv, h0, h1, h2⟩ | ⟨b0, b1, b2, b3, he, hv, h0, -⟩
  · rw [he, characterAt]
    simp only [byteAt, cons_append, getD_cons_zero, h0]
    rw [if_neg (by omega), if_neg (by omega), if_neg (by omega)]
    rfl
  · rw [he, characterAt]
    simp only [byteAt, cons_append, getD_cons_zero, getD_cons_succ, h0, h1]
    rw [if_neg (by omega), if_neg (by omega), if_pos (by omega),
      show (c.toNat / 64 + 192) % 32 * 64 + (c.toNat % 64 + 128) % 64 = c.toNat by omega]
    rfl
  · rw [he, characterAt]
    simp only [byteAt, cons_append, getD_cons_zero, getD_cons_succ, h0, h1, h2]
    rw [if_neg (by omega), if_pos (by omega),
      show (c.toNat / 4096 + 224) % 16 * 4096 + (c.toNat / 64 % 64 + 128) % 64 * 64 +
        (c.toNat % 64 + 128) % 64 = c.toNat by omega]
    rfl
  · have hspace : whiteSpace c.toNat = false := by
      simp only [whiteSpace, Bool.or_eq_false_iff, Bool.and_eq_false_iff, beq_eq_false_iff_ne,
        decide_eq_false_iff_not]
      omega
    rw [he, characterAt, hspace]
    simp only [byteAt, cons_append, getD_cons_zero, h0]
    rw [if_pos (by omega)]
    rfl

theorem controlAt_encode (c : Char) (rest : Bytes) :
    controlAt (utf8EncodeChar c ++ rest) = (if Control c then some c.toNat else none) ∧
      controlWidth (byteAt (utf8EncodeChar c ++ rest) 0) = (utf8EncodeChar c).length := by
  have hres : ∀ {found : Option ℕ}, (Control c → found = some c.toNat) →
      (¬ Control c → found = none) → found = if Control c then some c.toNat else none := by
    intro found hyes hno
    split_ifs with hc
    · exact hyes hc
    · exact hno hc
  unfold controlAt controlWidth
  unfold Control at hres ⊢
  rcases utf8EncodeChar_cases c with ⟨b0, he, hv, h0⟩ | ⟨b0, b1, he, hv, h0, h1⟩ |
    ⟨b0, b1, b2, he, hv, h0, -⟩ | ⟨b0, b1, b2, b3, he, hv, h0, -⟩
  · simp only [he, byteAt, cons_append, getD_cons_zero, h0]
    refine ⟨hres (fun hc => if_pos (by omega)) fun hc => ?_, if_pos (by omega)⟩
    rw [if_neg (by omega), if_neg (by omega)]
  · simp only [he, byteAt, cons_append, getD_cons_zero, getD_cons_succ, h0, h1]
    refine ⟨hres (fun hc => ?_) fun hc => ?_, (if_neg (by omega)).trans (if_pos (by omega))⟩
    · rw [if_neg (by omega), if_pos (by omega)]
      exact congrArg some (by omega)
    · rw [if_neg (by omega), if_neg (by omega)]
  · simp only [he, byteAt, cons_append, getD_cons_zero, h0]
    refine ⟨hres (fun hc => by omega) fun hc => ?_,
      (if_neg (by omega)).trans ((if_neg (by omega)).trans (if_pos (by omega)))⟩
    rw [if_neg (by omega), if_neg (by omega)]
  · simp only [he, byteAt, cons_append, getD_cons_zero, h0]
    refine ⟨hres (fun hc => by omega) fun hc => ?_,
      (if_neg (by omega)).trans ((if_neg (by omega)).trans (if_neg (by omega)))⟩
    rw [if_neg (by omega), if_neg (by omega)]

/-! ## The loops -/

theorem encodeUtf8_cons_ne_nil (c : Char) (chars : List Char) : encodeUtf8 (c :: chars) ≠ [] :=
  append_ne_nil_of_left_ne_nil (utf8EncodeChar_ne_nil c) _

theorem nonBlankLoop_encode {fuel : ℕ} {chars : List Char} (hfuel : chars.length ≤ fuel) :
    nonBlankLoop fuel (encodeUtf8 chars) = chars.any fun c => !whiteSpace c.toNat := by
  induction chars generalizing fuel with
  | nil => cases fuel <;> rfl
  | cons c chars ih =>
    obtain ⟨fuel, rfl⟩ := Nat.exists_eq_add_of_le' hfuel
    rw [length_cons, ← Nat.add_assoc, nonBlankLoop, if_neg (encodeUtf8_cons_ne_nil c chars),
      encodeUtf8_cons, characterAt_encode, drop_left, ih (Nat.le_add_left _ _), any_cons]
    cases whiteSpace c.toNat <;> rfl

theorem controlLoop_encode {fuel index : ℕ} {chars : List Char} (hfuel : chars.length ≤ fuel) :
    controlLoop fuel (encodeUtf8 chars) index =
      ((chars.zipIdx index).find? fun p => Control p.1).map fun p => ⟨p.2, p.1.toNat⟩ := by
  induction chars generalizing fuel index with
  | nil => cases fuel <;> rfl
  | cons c chars ih =>
    obtain ⟨fuel, rfl⟩ := Nat.exists_eq_add_of_le' hfuel
    rw [length_cons, ← Nat.add_assoc, controlLoop, if_neg (encodeUtf8_cons_ne_nil c chars),
      encodeUtf8_cons, (controlAt_encode c _).1, (controlAt_encode c _).2, drop_left,
      ih (Nat.le_add_left _ _), zipIdx_cons, find?_cons]
    by_cases hctl : Control c <;> simp [hctl]

theorem endsWith_encode {chars ends : List Char} (hsize : (encodeUtf8 chars).length ≤ Vm.sizeMax) :
    endsWith (encodeUtf8 chars) (encodeUtf8 ends) = .ok (.bool (decide (ends <:+ chars))) := by
  unfold endsWith
  simp only [Vm.utf8Characters_encodeUtf8]
  split_ifs with hlen
  · have hoff : (Vm.NatBig.ofNat (chars.length - ends.length)).toNat =
        chars.length - ends.length := by simp [Vm.NatBig.toNat, Vm.NatBig.ofNat]
    have hprefix : ends.isPrefixOf (chars.drop (chars.length - ends.length)) =
        decide (ends <:+ chars) := by
      rw [Bool.eq_iff_iff, isPrefixOf_iff_prefix, decide_eq_true_eq, suffix_iff_eq_drop]
      constructor
      · intro h
        exact h.eq_of_length (by rw [length_drop]; omega)
      · intro h
        rw [← h]
    rw [Vm.valueSize, (Vm.textOf_encodeUtf8 hsize).startsWithAt, hoff, hprefix,
      decide_eq_true (Nat.sub_le _ _), Bool.true_and]
  · rw [decide_eq_false fun h => hlen h.length_le]

/-- The methods on texts are those of their code points. -/
theorem text_methods_exact (value suffix : Str) (hsize : value.bytes.length ≤ Vm.sizeMax) :
    ∃ chars ends, value.bytes = encodeUtf8 chars ∧ suffix.bytes = encodeUtf8 ends ∧
      (isNonBlank value.bytes = true ↔ ∃ c ∈ chars, whiteSpace c.toNat = false) ∧
      firstControlCharacter value.bytes =
        (chars.zipIdx.find? fun p => Control p.1).map (fun p => ⟨p.2, p.1.toNat⟩) ∧
      (firstControlCharacter value.bytes = none ↔ ∀ c ∈ chars, ¬ Control c) ∧
      endsWith value.bytes suffix.bytes = .ok (.bool (decide (ends <:+ chars))) := by
  obtain ⟨chars, hchars⟩ := exists_chars value.valid
  obtain ⟨ends, hends⟩ := exists_chars suffix.valid
  rw [hchars] at hsize ⊢
  have hfuel := Vm.length_le_encodeUtf8 chars
  have hfirst := @controlLoop_encode _ 0 chars hfuel
  refine ⟨chars, ends, rfl, hends, ?_, hfirst, ?_, hends ▸ endsWith_encode hsize⟩
  · rw [isNonBlank, nonBlankLoop_encode hfuel, any_eq_true]
    simp only [Bool.not_eq_true']
  rw [firstControlCharacter, hfirst, Option.map_eq_none_iff, find?_eq_none]
  constructor
  · intro h c hc
    obtain ⟨i, hi⟩ := mem_iff_getElem?.mp hc
    have hmem := h (c, i) (mem_zipIdx_iff_getElem?.mpr hi)
    simpa using hmem
  · intro h p hp
    simpa using h p.1 (fst_mem_of_mem_zipIdx hp)

theorem text_methods_exact_tab : ∃ chars, [9, 97] = encodeUtf8 chars ∧
      (firstControlCharacter [9, 97] = none ↔ ∀ c ∈ chars, ¬ Control c) := by
  obtain ⟨chars, _, hchars, _, _, _, hctl, _⟩ :=
    text_methods_exact (Str.ascii "\ta") (Str.ascii "a") (by decide)
  exact ⟨chars, hchars, hctl⟩

end Panackelty.Stdlib
