import Panackelty.Bytecode.Format

/-!
# Decimal literals

The emitter keeps a decimal constant as the text of its literal, and the format holds the
coefficient and the exponent of the number that the literal spells.

* `DecimalNumeral`: a literal as a sign and digits; `DecimalNumeral.ofText` reads it from text.
* `FunctionCode.canonical`: a function with its decimal constants in coefficient and exponent form.
-/

namespace Panackelty.Bytecode

open List Format

/-- A decimal numeral: an optional sign, digits, a point and digits. -/
structure DecimalNumeral where
  negative : Bool
  whole : List ℕ
  fraction : List ℕ
  whole_le : ∀ d ∈ whole, d ≤ 9
  fraction_le : ∀ d ∈ fraction, d ≤ 9

namespace DecimalNumeral

/-- The byte of a digit. -/
def digitByte (d : ℕ) : UInt8 := UInt8.ofNat (48 + d)

variable (n : DecimalNumeral)

/-- The text of a numeral. -/
def bytes : Bytes :=
  (if n.negative then [45] else []) ++ n.whole.map digitByte ++ [46] ++ n.fraction.map digitByte

/-- The coefficient without leading zeros. -/
def coefficient : List ℕ :=
  let digits := (n.whole ++ n.fraction).dropWhile (· = 0)
  if digits.length = 0 then [0] else digits

/-- The constant that a numeral spells. -/
def parts : ConstantValue :=
  .decimalPartsConstant n.negative n.coefficient (0 < n.fraction.length) n.fraction.length

theorem digitByte_toNat {d : ℕ} (h : d ≤ 9) : (digitByte d).toNat = 48 + d := by
  rw [digitByte, UInt8.toNat_ofNat']
  omega

theorem digitByte_ne {d : ℕ} (h : d ≤ 9) {b : UInt8} (hb : b.toNat < 48) : [digitByte d] ≠ [b] := by
  intro heq
  injection heq with heq
  have := digitByte_toNat h
  rw [heq] at this
  omega

/-- Text of digits only. -/
def AllDigits (text : Bytes) : Prop := ∀ b ∈ text, 48 ≤ b.toNat ∧ b.toNat ≤ 57

instance (text : Bytes) : Decidable (AllDigits text) :=
  inferInstanceAs (Decidable (∀ b ∈ text, 48 ≤ b.toNat ∧ b.toNat ≤ 57))

/-- The values of digits. -/
def digitsOf (text : Bytes) : List ℕ := text.map fun b => b.toNat - 48

variable {text : Bytes}

theorem digitsOf_le (h : AllDigits text) : ∀ d ∈ digitsOf text, d ≤ 9 := by
  intro d hd
  obtain ⟨b, hb, rfl⟩ := mem_map.mp hd
  have := h b hb
  omega

theorem map_digitByte (h : AllDigits text) : (digitsOf text).map digitByte = text := by
  rw [digitsOf, map_map]
  refine (map_congr_left fun b hb => ?_).trans (map_id text)
  have hb := h b hb
  rw [Function.comp_apply, digitByte, show 48 + (b.toNat - 48) = b.toNat by omega,
    UInt8.ofNat_toNat, id_eq]

/-- The numeral of unsigned text. -/
def ofUnsigned (negative : Bool) (text : Bytes) : Option DecimalNumeral :=
  let whole := text.takeWhile (· ≠ 46)
  let fraction := (text.dropWhile (· ≠ 46)).tail
  if h : AllDigits whole ∧ AllDigits fraction ∧ 46 ∈ text then
    some ⟨negative, digitsOf whole, digitsOf fraction, digitsOf_le h.1, digitsOf_le h.2.1⟩
  else none

/-- The numeral that a text spells. -/
def ofText (text : Str) : Option DecimalNumeral :=
  if text.bytes.head? = some 45 then ofUnsigned true text.bytes.tail
  else ofUnsigned false text.bytes

theorem split_at_point (h : 46 ∈ text) :
    text = text.takeWhile (· ≠ 46) ++ ([46] ++ (text.dropWhile (· ≠ 46)).tail) := by
  induction text with
  | nil => simp at h
  | cons b text ih =>
    by_cases hb : b = 46
    · simp [hb]
    have hmem : 46 ∈ text := by
      rcases mem_cons.mp h with h46 | h46
      · exact absurd h46.symm hb
      · exact h46
    rw [takeWhile_cons, dropWhile_cons, if_pos (decide_eq_true hb),
      if_pos (decide_eq_true hb), cons_append, ← ih hmem]

theorem ofUnsigned_bytes {negative : Bool} {n : DecimalNumeral}
    (h : ofUnsigned negative text = some n) :
    n.bytes = (if negative then [45] else []) ++ text := by
  rw [ofUnsigned] at h
  split_ifs at h with hd
  cases h
  rw [bytes, map_digitByte hd.1, map_digitByte hd.2.1, append_assoc, append_assoc,
    ← split_at_point hd.2.2]

theorem ofText_bytes {text : Str} {n : DecimalNumeral} (h : ofText text = some n) :
    text.bytes = n.bytes := by
  rw [ofText] at h
  split_ifs at h with hsign
  · rw [ofUnsigned_bytes h, if_pos rfl, singleton_append]
    exact (cons_head?_tail (by rw [hsign]; rfl)).symm
  · rw [ofUnsigned_bytes h]
    rfl

end DecimalNumeral

/-! ## Canonical forms -/

/-- A constant in the form in which the format holds it. -/
def ConstantValue.canonical : ConstantValue → ConstantValue
  | .decimalConstant text => ((DecimalNumeral.ofText text).map DecimalNumeral.parts).getD
      (.decimalConstant text)
  | value => value

/-- With canonical digits. -/
def Instruction.canonical : Instruction → Instruction
  | .constInstruction value => .constInstruction value.canonical
  | i => i

/-- Every constant in its canonical digits. -/
def FunctionCode.canonical (f : FunctionCode) : FunctionCode :=
  { f with instructions := f.instructions.map Instruction.canonical }

theorem ConstantValue.canonical_of_ok {value : ConstantValue} (h : constant.Ok value) :
    value.canonical = value := by
  cases value with
  | decimalConstant text =>
    have hv : toDecimal (0, 0, 0, []) = some (.decimalConstant text) := h.2.2
    simp [Format.toDecimal] at hv
  | _ => rfl

theorem Instruction.canonical_of_ok {i : Instruction} (h : instruction.Ok i) : i.canonical = i := by
  cases i with
  | constInstruction value => rw [Instruction.canonical, ConstantValue.canonical_of_ok h.2.1]
  | _ => rfl

theorem FunctionCode.canonical_of_ok {f : FunctionCode} (h : functionCode.Ok f) :
    f.canonical = f := by
  have hins : (u32.list instruction).Ok f.instructions := h.1.2.2.2
  have hmap : f.instructions.map Instruction.canonical = f.instructions :=
    (map_congr_left fun i hi =>
      Instruction.canonical_of_ok ((Library.Codec.list_ok_iff.mp hins).2 i hi)).trans (map_id _)
  rw [FunctionCode.canonical, hmap]

end Panackelty.Bytecode
