import Mathlib.Data.FinEnum
import Panackelty.Bytecode.Numeral

/-!
# `bytecode/codec.panack`: the encoder

Every function is written with the partial operations it uses: `push` traps on a value above `255`
and `parse_nat` on text that is no number, and a trap is `none`.

* `encodeConstant_literal`: a decimal literal is written as the decimal that it spells.
* `encodeConstant_eq`, `encodeInstruction_eq`, `encodeFunction_eq`: on values whose canonical form
  the format can hold, the encoder writes what the format prints for it.
* `serializeBytecode_eq`: so an artifact is the print of the sorted function table.
-/

namespace Panackelty.Bytecode

open Library List Format Option
open FunctionCode (canonical)

/-! ## Numbers and text -/

/-- `Bytes.push`. -/
def push (data : Bytes) (value : ℕ) : Option Bytes :=
  if value ≤ 255 then some (data ++ [UInt8.ofNat value]) else none

/-- `encode_u8`. -/
def encodeU8 (value : ℕ) : Option Bytes := push [] value

/-- `encode_u16`. -/
def encodeU16 (value : ℕ) : Option Bytes := do
  let output ← push [] (value / 256 % 256)
  push output (value % 256)

/-- `encode_u32`. -/
def encodeU32 (value : ℕ) : Option Bytes := do
  let output ← push [] (value / 16777216 % 256)
  let output ← push output (value / 65536 % 256)
  let output ← push output (value / 256 % 256)
  push output (value % 256)

/-- The loop that takes `remaining` off a number, one at a time; also `subtract_natural`. -/
def subtractNatural : ℕ → ℕ → ℕ
  | result, 0 => result
  | result, remaining + 1 => subtractNatural (if 0 < result then result - 1 else result) remaining

/-- `encode_i16_negative`. -/
def encodeI16Negative (magnitude : ℕ) : Option Bytes :=
  if magnitude ≤ 32768 then encodeU16 (subtractNatural 65536 magnitude) else some []

/-- `encode_name`. -/
def encodeName (value : Str) : Option Bytes := do
  let size ← encodeU16 value.bytes.length
  some (size ++ value.bytes)

/-- `encode_text`. -/
def encodeText (value : Str) : Option Bytes := do
  let size ← encodeU32 value.bytes.length
  some (size ++ value.bytes)

/-- `encode_nat_body`. -/
def encodeNatBody (value : ℕ) : Option Bytes :=
  if value < 256 then encodeU8 value
  else do
    let body ← encodeNatBody (value / 256)
    push body (value % 256)

/-- `encode_natural`. -/
def encodeNatural (value : ℕ) : Option Bytes :=
  if value = 0 then encodeU16 0
  else do
    let body ← encodeNatBody value
    let size ← encodeU16 body.length
    some (size ++ body)

/-! ## Decimals -/

/-- `Str.parse_nat` on the bytes of a text. -/
def parseNat (text : Bytes) : Option ℕ :=
  if text ≠ [] ∧ ∀ b ∈ text, 48 ≤ b.toNat ∧ b.toNat ≤ 57 then
    some (Digits.bigEndian 10 (text.map fun b => b.toNat - 48))
  else none

/-- The character `.`. -/
def point : Bytes := [46]

/-- The character `-`. -/
def minus : Bytes := [45]

/-- The loop of `decimal_digits`: leading zeros are dropped. -/
def decimalDigitsLoop : List Bytes → List ℕ → Bool → Option (List ℕ)
  | [], digits, _ => some digits
  | character :: characters, digits, seenNonzero =>
    if character ≠ point ∧ character ≠ minus then do
      let digit ← parseNat character
      if digit ≠ 0 ∨ seenNonzero then decimalDigitsLoop characters (digits ++ [digit]) true
      else decimalDigitsLoop characters digits seenNonzero
    else decimalDigitsLoop characters digits seenNonzero

/-- `decimal_digits`. -/
def decimalDigits (text : Str) : Option (List ℕ) := do
  let digits ← decimalDigitsLoop text.characters [] false
  some (if digits.length = 0 then [0] else digits)

/-- The loop of `decimal_fraction_digits`. -/
def decimalFractionLoop : List Bytes → ℕ → Bool → ℕ
  | [], result, _ => result
  | character :: characters, result, afterPoint =>
    if character = point then decimalFractionLoop characters result true
    else decimalFractionLoop characters (if afterPoint then result + 1 else result) afterPoint

/-- `decimal_fraction_digits`. -/
def decimalFractionDigits (text : Str) : ℕ := decimalFractionLoop text.characters 0 false

/-- The loop that packs two digits into a byte. -/
def packDigits : List ℕ → Bytes → Option Bytes
  | [], output => some output
  | [high], output => push output (high * 16 + 15)
  | high :: low :: digits, output => do
    let output ← push output (high * 16 + low)
    packDigits digits output

/-- `encode_decimal`. -/
def encodeDecimal (text : Str) : Option Bytes := do
  let negative := text.characters.head? = some minus
  let digits ← decimalDigits text
  let output ← encodeU8 (if negative then 1 else 0)
  let exponent ← encodeI16Negative (decimalFractionDigits text)
  let count ← encodeU16 digits.length
  packDigits digits (output ++ exponent ++ count)

/-- The exponent bytes of `encode_decimal_parts`. -/
def encodeExponent (negative : Bool) (magnitude : ℕ) : Option Bytes :=
  if negative then encodeI16Negative magnitude else encodeU16 magnitude

/-- `encode_decimal_parts`. -/
def encodeDecimalParts (negative : Bool) (digits : List ℕ) (exponentNegative : Bool)
    (exponentMagnitude : ℕ) : Option Bytes := do
  let output ← encodeU8 (if negative then 1 else 0)
  let exponent ← encodeExponent exponentNegative exponentMagnitude
  let count ← encodeU16 digits.length
  packDigits digits (output ++ exponent ++ count)

/-! ## Constants and instructions -/

/-- `join` of an opcode or a tag with what follows it. -/
def tagThen (tag : ℕ) (body : Option Bytes) : Option Bytes := do
  let output ← encodeU8 tag
  let rest ← body
  some (output ++ rest)

/-- `join` of two encodings. -/
def joinThen (first second : Option Bytes) : Option Bytes := do
  let output ← first
  let rest ← second
  some (output ++ rest)

/-- `encode_constant`. -/
def encodeConstant : ConstantValue → Option Bytes
  | .natConstant number => tagThen 0 (encodeNatural number)
  | .intConstant negative magnitude =>
    joinThen (tagThen 1 (encodeU8 (if negative then 1 else 0))) (encodeNatural magnitude)
  | .decimalConstant text => tagThen 2 (encodeDecimal text)
  | .decimalPartsConstant negative digits exponentNegative exponentMagnitude =>
    tagThen 2 (encodeDecimalParts negative digits exponentNegative exponentMagnitude)
  | .stringConstant text => tagThen 3 (encodeText text)
  | .boolConstant flag => tagThen 4 (encodeU8 (if flag then 1 else 0))
  | .voidConstant => encodeU8 5

/-- The loops that join the encodings of a list to an output. -/
def joinAll {α : Type} (encode : α → Option Bytes) : List α → Bytes → Option Bytes
  | [], output => some output
  | value :: values, output => do
    let encoded ← encode value
    joinAll encode values (output ++ encoded)

/-- `encode_names`. -/
def encodeNames (values : List Str) : Option Bytes := joinAll encodeName values []

/-- `encode_texts`. -/
def encodeTexts (values : List Str) : Option Bytes := do
  let output ← encodeU16 values.length
  joinAll encodeText values output

/-- `encode_instruction`. -/
def encodeInstruction : Instruction → Option Bytes
  | .constInstruction value => tagThen 0 (encodeConstant value)
  | .loadInstruction name => tagThen 1 (encodeName name)
  | .storeInstruction name => tagThen 2 (encodeName name)
  | .popInstruction => encodeU8 3
  | .unaryInstruction operator => tagThen 4 (encodeU8 (Format.unaryCode operator))
  | .binaryInstruction operator => tagThen 5 (encodeU8 (Format.binaryCode operator))
  | .makeRangeInstruction => encodeU8 6
  | .makeArrayInstruction count => tagThen 7 (encodeU16 count)
  | .indexGetInstruction => encodeU8 8
  | .interpolateInstruction parts => tagThen 9 (encodeTexts parts)
  | .iterInitInstruction name => tagThen 10 (encodeName name)
  | .iterNextInstruction iterator name stop =>
    joinThen (joinThen (tagThen 11 (encodeName iterator)) (encodeName name)) (encodeU32 stop)
  | .makeRecordInstruction name fields =>
    joinThen (joinThen (tagThen 12 (encodeName name)) (encodeU16 fields.length))
      (encodeNames fields)
  | .fieldGetInstruction name => tagThen 13 (encodeName name)
  | .makeVariantInstruction enumName variant count =>
    joinThen (joinThen (tagThen 14 (encodeName enumName)) (encodeName variant)) (encodeU16 count)
  | .matchVariantInstruction variant failure =>
    joinThen (tagThen 15 (encodeName variant)) (encodeU32 failure)
  | .matchFailInstruction => encodeU8 16
  | .callInstruction name arity => joinThen (tagThen 17 (encodeName name)) (encodeU8 arity)
  | .jumpFalseInstruction target => tagThen 18 (encodeU32 target)
  | .jumpInstruction target => tagThen 19 (encodeU32 target)
  | .pendingEndJumpInstruction => some []
  | .returnInstruction => encodeU8 20
  | .awaitCallInstruction name arity => joinThen (tagThen 22 (encodeName name)) (encodeU8 arity)
  | .awaitValueInstruction arity => tagThen 23 (encodeU8 arity)
  | .callValueInstruction arity => tagThen 21 (encodeU8 arity)

/-! ## Programs -/

/-- `insert_function`: before the first function with a greater name. -/
def insertFunction (function : FunctionCode) : List FunctionCode → List FunctionCode
  | [] => [function]
  | existing :: functions =>
    if function.name < existing.name then function :: existing :: functions
    else existing :: insertFunction function functions

/-- `sort_functions`. -/
def sortFunctions (functions : List FunctionCode) : List FunctionCode :=
  functions.foldl (fun result function => insertFunction function result) []

/-- `encode_function`. -/
def encodeFunction (function : FunctionCode) : Option Bytes := do
  let output ← encodeName function.name
  let flags ← encodeU8 (if function.isAsync then 2 else if function.isPure then 1 else 0)
  let count ← encodeU8 function.parameters.length
  let parameters ← encodeNames function.parameters
  let size ← encodeU32 function.instructions.length
  joinAll encodeInstruction function.instructions (output ++ flags ++ count ++ parameters ++ size)

/-- `serialize_bytecode`. -/
def serializeBytecode (program : BytecodeProgram) : Option Bytes := do
  let output ← push (Str.asciiBytes "PANACKBC") 0
  let version ← encodeU16 9
  let functions := sortFunctions program.functions
  let count ← encodeU16 functions.length
  joinAll encodeFunction functions (output ++ version ++ count)

/-! ## What the encoder writes -/

theorem push_eq {data : Bytes} {value : ℕ} (h : value ≤ 255) :
    push data value = some (data ++ [UInt8.ofNat value]) := if_pos h

theorem encodeU8_eq {n : ℕ} (h : n < 256) : encodeU8 n = some (u8.print n) :=
  push_eq (by omega)

theorem encodeU16_mod (n : ℕ) :
    encodeU16 n = some [UInt8.ofNat (n / 256 % 256), UInt8.ofNat (n % 256)] := by
  have h1 : n / 256 % 256 ≤ 255 := by omega
  have h2 : n % 256 ≤ 255 := by omega
  rw [encodeU16, push_eq h1, bind_eq_bind, bind_some, push_eq h2]
  rfl

theorem encodeU16_eq {n : ℕ} (h : n < 65536) : encodeU16 n = some (u16.print n) := by
  have hmod : n / 256 % 256 = n / 256 := by omega
  rw [encodeU16_mod, hmod]
  rfl

theorem encodeU32_eq {n : ℕ} (h : n < 4294967296) : encodeU32 n = some (u32.print n) := by
  have hmod : n / 16777216 % 256 = n / 16777216 := by omega
  have h1 : n / 16777216 ≤ 255 := by omega
  have h2 : n / 65536 % 256 ≤ 255 := by omega
  have h3 : n / 256 % 256 ≤ 255 := by omega
  have h4 : n % 256 ≤ 255 := by omega
  simp only [encodeU32, hmod, push_eq h1, push_eq h2, push_eq h3, push_eq h4, bind_eq_bind,
    bind_some]
  rfl

theorem encodeName_eq {s : Str} (h : name.Ok s) : encodeName s = some (name.print s) := by
  have hlen : s.bytes.length < 65536 := by
    have := name_ok_iff.mp h
    omega
  rw [encodeName, encodeU16_eq hlen]
  rfl

theorem encodeText_eq {s : Str} (h : text.Ok s) : encodeText s = some (text.print s) := by
  have hlen : s.bytes.length < 4294967296 := by
    have := text_ok_iff.mp h
    omega
  rw [encodeText, encodeU32_eq hlen]
  rfl

/-- The recursion of `encode_nat_body` writes the base-256 digits. -/
theorem encodeNatBody_eq (value : ℕ) (h : value ≠ 0) :
    encodeNatBody value = some (ofNatural value) := by
  induction value using Nat.strong_induction_on with
  | _ value ih =>
    rw [encodeNatBody]
    split_ifs with hlt
    · rw [encodeU8, push_eq (by omega), ofNatural, Nat.digits_of_lt 256 value h hlt]
      rfl
    have hdiv : value / 256 ≠ 0 := by omega
    have hbody := ih (value / 256) (by omega) hdiv
    rw [hbody, bind_eq_bind, bind_some, push_eq (by omega), ofNatural,
      ofNatural, Nat.digits_def' (by decide) (Nat.pos_of_ne_zero h)]
    simp

theorem encodeNatural_eq {value : ℕ} (h : natural.Ok value) :
    encodeNatural value = some (natural.print value) := by
  have hlen := length_ofNatural_le (natural_ok_iff.mp h)
  have hprint : natural.print value = u16.print (ofNatural value).length ++ ofNatural value := rfl
  rw [encodeNatural, hprint]
  split_ifs with h0
  · subst h0
    rfl
  · rw [encodeNatBody_eq value h0, bind_eq_bind, bind_some, encodeU16_eq (by omega)]
    rfl

theorem subtractNatural_eq : ∀ remaining res : ℕ, subtractNatural res remaining = res - remaining
  | 0, _ => rfl
  | remaining + 1, res => by
    rw [subtractNatural, subtractNatural_eq remaining]
    split_ifs
    · omega
    · omega

theorem packDigits_eq : ∀ {digits : List ℕ} {output : Bytes}, (∀ d ∈ digits, d ≤ 9) →
    packDigits digits output = some (output ++ pack digits)
  | [], output, _ => by simp [packDigits, pack]
  | [d], output, h => by
    have hd : d ≤ 9 := h d mem_cons_self
    rw [packDigits, push_eq (by omega), pack]
  | d :: e :: digits, output, h => by
    have hd : d ≤ 9 := h d mem_cons_self
    have he : e ≤ 9 := h e (mem_cons_of_mem _ mem_cons_self)
    have htail : ∀ x ∈ digits, x ≤ 9 := fun x hx => h x (mem_cons_of_mem _ (mem_cons_of_mem _ hx))
    rw [packDigits, push_eq (by omega), bind_eq_bind, bind_some,
      packDigits_eq htail, pack, append_assoc]
    rfl

theorem encodeExponent_eq {expNeg : Bool} {expMag : ℕ}
    (h : expMag ≤ 4096) (hz : expNeg = true → expMag ≠ 0) :
    encodeExponent expNeg expMag = some (u16.print (ofI16 expNeg expMag)) := by
  unfold encodeExponent
  cases hn : expNeg with
  | false => exact encodeU16_eq (by omega)
  | true =>
    have h0 := hz hn
    simp only [if_true, encodeI16Negative, ofI16]
    rw [if_pos (by omega), subtractNatural_eq, encodeU16_eq (by omega)]

theorem decimal_print (negative : Bool) (digits : List ℕ) (expNeg : Bool) (expMag : ℕ) :
    decimal.print (.decimalPartsConstant negative digits expNeg expMag) =
      u8.print (if negative then 1 else 0) ++ (u16.print (ofI16 expNeg expMag) ++
          (u16.print digits.length ++ pack digits)) := rfl

theorem encodeDecimalParts_eq {negative : Bool} {digits : List ℕ} {expNeg : Bool}
    {expMag : ℕ} (h : DecimalFits digits expNeg expMag) :
    encodeDecimalParts negative digits expNeg expMag = some (decimal.print
        (.decimalPartsConstant negative digits expNeg expMag)) := by
  have hlen := h.length
  have hsign : (if negative = true then 1 else 0) < 256 := by cases negative <;> decide
  rw [encodeDecimalParts, encodeU8_eq hsign, encodeExponent_eq h.exponent h.zero,
    encodeU16_eq (by omega), decimal_print]
  simp [packDigits_eq h.digit]

theorem tagThen_eq {tag : ℕ} {body : Option Bytes} {b : Bytes} (ht : tag < 256)
    (hb : body = some b) : tagThen tag body = some (u8.print tag ++ b) := by
  rw [tagThen, encodeU8_eq ht, hb]
  rfl

theorem joinThen_eq {first second : Option Bytes} {a b : Bytes} (ha : first = some a)
    (hb : second = some b) : joinThen first second = some (a ++ b) := by
  rw [joinThen, ha, hb]
  rfl

theorem joinAll_eq {α : Type} {encode : α → Option Bytes} {print : α → Bytes} :
    ∀ {vals : List α} {output : Bytes}, (∀ v ∈ vals, encode v = some (print v)) →
      joinAll encode vals output = some (output ++ vals.flatMap print)
  | [], output, _ => by simp [joinAll]
  | v :: vals, output, h => by
    rw [joinAll, h v mem_cons_self, bind_eq_bind, bind_some,
      joinAll_eq fun x hx => h x (mem_cons_of_mem _ hx), flatMap_cons, append_assoc]

/-! ## Decimal literals -/

namespace DecimalNumeral

theorem parseNat_digitByte {d : ℕ} (h : d ≤ 9) : parseNat [digitByte d] = some d := by
  have hval := digitByte_toNat h
  have hcond : [digitByte d] ≠ [] ∧ ∀ b ∈ [digitByte d], 48 ≤ b.toNat ∧ b.toNat ≤ 57 := by
    refine ⟨by simp, fun b hb => ?_⟩
    rw [mem_singleton.mp hb]
    omega
  rw [parseNat, if_pos hcond, map_singleton, hval, Digits.bigEndian]
  simp

/-- The digits that the loop keeps: all of them once a nonzero digit was seen. -/
def keep (seen : Bool) (digits : List ℕ) : List ℕ :=
  if seen then digits else digits.dropWhile (· = 0)

theorem decimalDigitsLoop_digits : ∀ {digits : List ℕ} (acc : List ℕ) (seen : Bool),
    (∀ d ∈ digits, d ≤ 9) →
    decimalDigitsLoop (digits.map fun d => [digitByte d]) acc seen = some (acc ++ keep seen digits)
  | [], acc, seen, _ => by cases seen <;> simp [decimalDigitsLoop, keep]
  | d :: digits, acc, seen, h => by
    have hd : d ≤ 9 := h d mem_cons_self
    have htail : ∀ x ∈ digits, x ≤ 9 := fun x hx => h x (mem_cons_of_mem _ hx)
    have hp : [digitByte d] ≠ point ∧ [digitByte d] ≠ minus :=
      ⟨digitByte_ne hd (by decide), digitByte_ne hd (by decide)⟩
    rw [map_cons, decimalDigitsLoop, if_pos hp, parseNat_digitByte hd, bind_eq_bind, bind_some]
    split_ifs with hseen
    · rw [decimalDigitsLoop_digits _ _ htail]
      cases seen with
      | true => simp [keep]
      | false =>
        have hd0 : d ≠ 0 := by simpa using hseen
        simp [keep, hd0]
    · rw [decimalDigitsLoop_digits _ _ htail]
      have hd0 : d = 0 := by
        by_contra h0
        exact hseen (Or.inl h0)
      have hs : seen = false := by simpa [hd0] using hseen
      simp [keep, hs, hd0]

theorem decimalDigitsLoop_filter : ∀ (chars : List Bytes) (acc : List ℕ) (seen : Bool),
    decimalDigitsLoop chars acc seen =
      decimalDigitsLoop (chars.filter fun c => c ≠ point ∧ c ≠ minus) acc seen
  | [], _, _ => rfl
  | c :: chars, acc, seen => by
    by_cases hc : c ≠ point ∧ c ≠ minus
    · rw [filter_cons_of_pos (by simpa using hc), decimalDigitsLoop, decimalDigitsLoop,
        if_pos hc, if_pos hc]
      cases parseNat c with
      | none => rfl
      | some d =>
        simp only [Option.bind_eq_bind, bind_some]
        rw [decimalDigitsLoop_filter chars, decimalDigitsLoop_filter chars]
    · rw [filter_cons_of_neg (by simpa using hc), decimalDigitsLoop, if_neg hc,
        decimalDigitsLoop_filter chars]

theorem filter_digits {digits : List ℕ} (h : ∀ d ∈ digits, d ≤ 9) :
    (digits.map fun d => [digitByte d]).filter (fun c => c ≠ point ∧ c ≠ minus) =
      digits.map fun d => [digitByte d] := by
  rw [filter_eq_self]
  intro c hc
  obtain ⟨d, hd, rfl⟩ := mem_map.mp hc
  have hle := h d hd
  simp only [ne_eq, decide_eq_true_eq]
  exact ⟨digitByte_ne hle (by decide), digitByte_ne hle (by decide)⟩

theorem decimalFractionLoop_before : ∀ {digits : List ℕ} (rest : List Bytes) (res : ℕ),
    (∀ d ∈ digits, d ≤ 9) →
    decimalFractionLoop ((digits.map fun d => [digitByte d]) ++ rest) res false =
      decimalFractionLoop rest res false
  | [], _, _, _ => rfl
  | d :: digits, rest, res, h => by
    have hd : [digitByte d] ≠ point := digitByte_ne (h d mem_cons_self) (by decide)
    rw [map_cons, cons_append, decimalFractionLoop, if_neg hd]
    exact decimalFractionLoop_before rest res fun x hx => h x (mem_cons_of_mem _ hx)

theorem decimalFractionLoop_after : ∀ {digits : List ℕ} (res : ℕ), (∀ d ∈ digits, d ≤ 9) →
    decimalFractionLoop (digits.map fun d => [digitByte d]) res true = res + digits.length
  | [], _, _ => rfl
  | d :: digits, res, h => by
    have hd : [digitByte d] ≠ point := digitByte_ne (h d mem_cons_self) (by decide)
    rw [map_cons, decimalFractionLoop, if_neg hd, if_pos rfl,
      decimalFractionLoop_after _ fun x hx => h x (mem_cons_of_mem _ hx), length_cons]
    omega

variable {n : DecimalNumeral} {text : Str}

theorem characters_eq (h : text.bytes = n.bytes) :
    text.characters = (if n.negative then [minus] else []) ++
      (n.whole.map fun d => [digitByte d]) ++ [point] ++ n.fraction.map fun d => [digitByte d] := by
  have hascii : ∀ b ∈ text.bytes, b.toNat < 128 := by
    intro b hb
    rw [h, bytes] at hb
    have hdigit : ∀ digits : List ℕ, (∀ d ∈ digits, d ≤ 9) → b ∈ digits.map digitByte →
        b.toNat < 128 := by
      intro digits hle hmem
      obtain ⟨d, hd, rfl⟩ := mem_map.mp hmem
      have := hle d hd
      rw [digitByte_toNat this]
      omega
    rcases mem_append.mp hb with hb | hb
    · rcases mem_append.mp hb with hb | hb
      · rcases mem_append.mp hb with hb | hb
        · cases hn : n.negative <;> simp [hn] at hb
          rw [hb]
          decide
        · exact hdigit _ n.whole_le hb
      · rw [mem_singleton.mp hb]
        decide
    · exact hdigit _ n.fraction_le hb
  rw [Str.characters_of_ascii hascii, h, bytes]
  cases n.negative <;> simp [minus, point, Function.comp_def]

theorem decimalDigits_eq (h : text.bytes = n.bytes) : decimalDigits text = some n.coefficient := by
  have hle : ∀ d ∈ n.whole ++ n.fraction, d ≤ 9 := by
    intro d hd
    rcases mem_append.mp hd with hd | hd
    · exact n.whole_le d hd
    · exact n.fraction_le d hd
  have hfilt : (text.characters.filter fun c => c ≠ point ∧ c ≠ minus) =
      (n.whole ++ n.fraction).map fun d => [digitByte d] := by
    rw [characters_eq h, filter_append, filter_append, filter_append,
      filter_digits n.whole_le, filter_digits n.fraction_le, map_append]
    cases n.negative <;> simp [point, minus]
  rw [decimalDigits, decimalDigitsLoop_filter, hfilt, decimalDigitsLoop_digits _ _ hle]
  rfl

theorem decimalFractionDigits_eq (h : text.bytes = n.bytes) :
    decimalFractionDigits text = n.fraction.length := by
  have hsign : ∀ rest : List Bytes,
      decimalFractionLoop ((if n.negative then [minus] else []) ++ rest) 0 false =
        decimalFractionLoop rest 0 false := by
    intro rest
    cases n.negative
    · rfl
    · rfl
  rw [decimalFractionDigits, characters_eq h, append_assoc, append_assoc, hsign,
    decimalFractionLoop_before _ _ n.whole_le, singleton_append, decimalFractionLoop,
    if_pos rfl, decimalFractionLoop_after _ n.fraction_le, Nat.zero_add]

theorem head?_characters (h : text.bytes = n.bytes) :
    (text.characters.head? = some minus) ↔ n.negative = true := by
  rw [characters_eq h]
  cases n.negative with
  | true => simp
  | false =>
    cases hw : n.whole with
    | nil => simp [point, minus]
    | cons d whole =>
      have hd := n.whole_le d (by rw [hw]; exact mem_cons_self)
      simpa [minus] using digitByte_ne hd (b := 45) (by decide)

end DecimalNumeral

/-- A decimal literal is written as the decimal that it spells. -/
theorem encodeConstant_literal {n : DecimalNumeral} {text : Str} (h : text.bytes = n.bytes)
    (hok : constant.Ok n.parts) :
    encodeConstant (.decimalConstant text) = some (constant.print n.parts) := by
  have hfits := decimalFits_of_ok hok.2
  have hlen := hfits.length
  have hexp := hfits.exponent
  have hfrac : encodeI16Negative n.fraction.length =
      some (u16.print (ofI16 (decide (0 < n.fraction.length)) n.fraction.length)) := by
    by_cases h0 : 0 < n.fraction.length
    · have hnegative := encodeExponent_eq hexp fun _ : true = true => h0.ne'
      simpa [h0, encodeExponent] using hnegative
    · have hz : n.fraction.length = 0 := by omega
      rw [hz]
      decide
  have hsign : (if n.negative = true then 1 else 0) < 256 := by cases n.negative <;> decide
  have hdec : encodeDecimal text = some (decimal.print n.parts) := by
    rw [encodeDecimal, DecimalNumeral.decimalDigits_eq h,
      DecimalNumeral.decimalFractionDigits_eq h, hfrac]
    simp only [DecimalNumeral.head?_characters h, bind_eq_bind, bind_some,
      encodeU8_eq hsign, encodeU16_eq (show n.coefficient.length < 65536 by omega),
      packDigits_eq hfits.digit, append_assoc]
    rfl
  exact tagThen_eq (by decide) hdec

/-! ## What an artifact holds -/

theorem encodeConstant_eq {value : ConstantValue} (h : constant.Ok value.canonical) :
    encodeConstant value = some (constant.print value.canonical) := by
  have hbody := h.2
  cases value with
  | natConstant number => exact tagThen_eq (by decide) (encodeNatural_eq hbody.1)
  | intConstant negative mag =>
    have hsign : (if negative = true then 1 else 0) < 256 := by cases negative <;> decide
    have hfirst := tagThen_eq (show 1 < 256 by decide) (encodeU8_eq hsign)
    have hjoin := joinThen_eq hfirst (encodeNatural_eq hbody.1.2)
    exact hjoin
  | decimalConstant text =>
    cases hn : DecimalNumeral.ofText text with
    | some n =>
      have hparts : (ConstantValue.decimalConstant text).canonical = n.parts := by
        rw [ConstantValue.canonical, hn]
        rfl
      rw [hparts] at h ⊢
      exact encodeConstant_literal (DecimalNumeral.ofText_bytes hn) h
    | none =>
      -- text that spells no number is no decimal of the format
      have hsame : (ConstantValue.decimalConstant text).canonical = .decimalConstant text := by
        rw [ConstantValue.canonical, hn]
        rfl
      rw [hsame] at h
      have hv : toDecimal (0, 0, 0, []) = some (.decimalConstant text) := h.2.2
      simp [toDecimal] at hv
  | decimalPartsConstant negative digits expNeg expMag =>
    exact tagThen_eq (by decide) (encodeDecimalParts_eq (decimalFits_of_ok hbody))
  | stringConstant text => exact tagThen_eq (by decide) (encodeText_eq hbody.1)
  | boolConstant flag =>
    have hflag : (if flag = true then 1 else 0) < 256 := by cases flag <;> decide
    exact tagThen_eq (by decide) (encodeU8_eq hflag)
  | voidConstant => exact encodeU8_eq (by decide)

theorem encodeNames_eq {vals : List Str} (h : ∀ v ∈ vals, name.Ok v) :
    encodeNames vals = some (vals.flatMap name.print) := by
  rw [encodeNames, joinAll_eq fun v hv => encodeName_eq (h v hv), nil_append]

theorem encodeTexts_eq {vals : List Str} (h : (u16.list text).Ok vals) :
    encodeTexts vals = some ((u16.list text).print vals) := by
  obtain ⟨hlen, hok⟩ := Codec.list_ok_iff.mp h
  rw [encodeTexts, encodeU16_eq (u16_ok_iff.mp hlen), bind_eq_bind, bind_some,
    joinAll_eq fun v hv => encodeText_eq (hok v hv), Codec.list_print]

theorem joinThree_eq {tag : ℕ} {x y z : Option Bytes} {a b c : Bytes} (ht : tag < 256)
    (hx : x = some a) (hy : y = some b) (hz : z = some c) :
    joinThen (joinThen (tagThen tag x) y) z = some (u8.print tag ++ (a ++ (b ++ c))) := by
  rw [joinThen_eq (joinThen_eq (tagThen_eq ht hx) hy) hz]
  simp

theorem joinTwo_eq {tag : ℕ} {x y : Option Bytes} {a b : Bytes} (ht : tag < 256)
    (hx : x = some a) (hy : y = some b) :
    joinThen (tagThen tag x) y = some (u8.print tag ++ (a ++ b)) := by
  rw [joinThen_eq (tagThen_eq ht hx) hy, append_assoc]

theorem encodeInstruction_eq {i : Instruction} (h : instruction.Ok i.canonical) :
    encodeInstruction i = some (instruction.print i.canonical) := by
  have hbody := h.2
  cases i with
  | constInstruction value => exact tagThen_eq (by decide) (encodeConstant_eq hbody.1)
  | loadInstruction name | storeInstruction name | iterInitInstruction name
  | fieldGetInstruction name => exact tagThen_eq (by decide) (encodeName_eq hbody.1)
  | popInstruction | makeRangeInstruction | indexGetInstruction | matchFailInstruction
  | returnInstruction => exact encodeU8_eq (by decide)
  | unaryInstruction op | binaryInstruction op =>
    exact tagThen_eq (by decide) (encodeU8_eq (u8_ok_iff.mp hbody.1))
  | makeArrayInstruction count =>
    exact tagThen_eq (by decide) (encodeU16_eq (u16_ok_iff.mp hbody.1))
  | interpolateInstruction parts => exact tagThen_eq (by decide) (encodeTexts_eq hbody.1)
  | iterNextInstruction iter name stop =>
    have hok := hbody.1
    exact joinThree_eq (by decide) (encodeName_eq hok.1) (encodeName_eq hok.2.1)
      (encodeU32_eq (u32_ok_iff.mp hok.2.2))
  | makeRecordInstruction name fields =>
    have hok := hbody.1
    obtain ⟨hlen, hflds⟩ := Codec.list_ok_iff.mp hok.2
    exact joinThree_eq (by decide) (encodeName_eq hok.1)
      (encodeU16_eq (u16_ok_iff.mp hlen)) (encodeNames_eq hflds)
  | makeVariantInstruction enumName variant count =>
    have hok := hbody.1
    exact joinThree_eq (by decide) (encodeName_eq hok.1) (encodeName_eq hok.2.1)
      (encodeU16_eq (u16_ok_iff.mp hok.2.2))
  | matchVariantInstruction variant failure =>
    have hok := hbody.1
    exact joinTwo_eq (by decide) (encodeName_eq hok.1) (encodeU32_eq (u32_ok_iff.mp hok.2))
  | callInstruction name arity | awaitCallInstruction name arity =>
    have hok := hbody.1
    exact joinTwo_eq (by decide) (encodeName_eq hok.1) (encodeU8_eq (u8_ok_iff.mp hok.2))
  | callValueInstruction arity | awaitValueInstruction arity =>
    exact tagThen_eq (by decide) (encodeU8_eq (u8_ok_iff.mp hbody.1))
  | jumpFalseInstruction tgt | jumpInstruction tgt =>
    exact tagThen_eq (by decide) (encodeU32_eq (u32_ok_iff.mp hbody.1))
  | pendingEndJumpInstruction => exact hbody.elim

theorem encodeFunction_eq {f : FunctionCode} (h : functionCode.Ok f.canonical) :
    encodeFunction f = some (functionCode.print f.canonical) := by
  have hname : name.Ok f.name := h.1.1
  have hflg : u8.Ok (flags f) := h.1.2.1
  have hparams : (u8.list name).Ok f.parameters := h.1.2.2.1
  have hins : (u32.list instruction).Ok f.canonical.instructions := h.1.2.2.2
  obtain ⟨hcnt, hparam⟩ := Codec.list_ok_iff.mp hparams
  obtain ⟨hsize, hinstr⟩ := Codec.list_ok_iff.mp hins
  have hlen : f.canonical.instructions.length = f.instructions.length := length_map _
  have hflat : f.canonical.instructions.flatMap instruction.print =
      f.instructions.flatMap fun i => instruction.print i.canonical := flatMap_map _ _ _
  have hprint : functionCode.print f.canonical = name.print f.name ++
      (u8.print (flags f) ++ ((u8.print f.parameters.length ++ f.parameters.flatMap name.print) ++
          (u32.print f.canonical.instructions.length ++
            f.canonical.instructions.flatMap instruction.print))) := rfl
  have hflag : encodeU8 (if f.isAsync then 2 else if f.isPure then 1 else 0) =
      some (u8.print (flags f)) := encodeU8_eq (u8_ok_iff.mp hflg)
  rw [hlen] at hsize
  rw [encodeFunction, encodeName_eq hname, hflag, encodeU8_eq (u8_ok_iff.mp hcnt),
    encodeNames_eq hparam, encodeU32_eq (u32_ok_iff.mp hsize), hprint, hlen, hflat]
  simp [joinAll_eq fun i hi => encodeInstruction_eq (hinstr _ (mem_map_of_mem hi))]

/-- The artifact of a program is the print of its sorted functions in canonical form. -/
theorem serializeBytecode_eq {prog : BytecodeProgram} (h : functionTable.Ok
      ((sortFunctions prog.functions).map canonical)) :
    serializeBytecode prog = some (functionTable.print
      ((sortFunctions prog.functions).map canonical)) := by
  have hlist : (u16.list functionCode).Ok
      ((sortFunctions prog.functions).map canonical) := h.1.2.2
  obtain ⟨hcnt, hfun⟩ := Codec.list_ok_iff.mp hlist
  have hprint : functionTable.print
        ((sortFunctions prog.functions).map canonical) = magic ++
      (u16.print 9 ++ (u16.print
        ((sortFunctions prog.functions).map canonical).length ++
        ((sortFunctions prog.functions).map canonical).flatMap
          functionCode.print)) := rfl
  have hmagic : push (Str.asciiBytes "PANACKBC") 0 = some magic := push_eq (by decide)
  have hvers : encodeU16 9 = some (u16.print 9) := encodeU16_eq (by decide)
  rw [length_map] at hcnt
  have hsize := encodeU16_eq (u16_ok_iff.mp hcnt)
  rw [hprint, length_map, flatMap_map]
  simp [serializeBytecode, hmagic, hvers, hsize, joinAll_eq fun f hf => encodeFunction_eq
    (hfun _ (mem_map_of_mem hf))]

end Panackelty.Bytecode
