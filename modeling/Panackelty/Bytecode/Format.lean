import Panackelty.Bytecode.Program
import Panackelty.Library.Codec
import Panackelty.Library.Digits

/-!
# `bytecode/FORMAT.md`: the version 9 layout

The layout is a codec for the functions of a program, put together from one codec for each row of
the format's tables, limits included.  Both decoders are compared with its parser and the encoder
with its printer.

* `u8`, `u16`, `u32`, `name`, `text`, `natural`, `decimal`: the primitive forms.
* `constant`, `instruction`, `functionCode`, `functionTable`: the layers of an artifact.
* `functionTable_canonical`: an artifact is the print of its function table.
-/

namespace Panackelty.Bytecode.Format

open Library Library.Digits List Codec UInt8 Parser Str

variable {value : ConstantValue} {i : Instruction} {s : Str} {code n : ℕ}

/-! ## Numbers of fixed width -/

/-- An unsigned byte. -/
def u8 : Codec UInt8 ℕ :=
  symbol.pmap (fun b => some b.toNat) ofNat fun _ h => by
    cases h
    exact UInt8.ofNat_toNat

theorem u8_ok_iff : u8.Ok n ↔ n < 256 := by simp [u8, Codec.pmap, Codec.symbol]

/-- Two bytes, the higher one first. -/
def u16 : Codec UInt8 ℕ :=
  (u8.pair fun _ => u8).pmap (fun x => some (x.1 * 256 + x.2)) (fun n => (n / 256, n % 256))
    fun {a b} hok h => by
      have h2 := u8_ok_iff.mp hok.2
      cases h
      ext
      · simp only
        omega
      · simp only
        omega

theorem u16_ok_iff : u16.Ok n ↔ n < 65536 := by
  simp only [u16, Codec.pmap, Codec.pair, u8_ok_iff, Option.some.injEq]
  omega

/-- Four bytes, the highest one first. -/
def u32 : Codec UInt8 ℕ :=
  (u8.pair fun _ => u8.pair fun _ => u8.pair fun _ => u8).pmap
    (fun x => some (x.1 * 16777216 + x.2.1 * 65536 + x.2.2.1 * 256 + x.2.2.2))
    (fun n => (n / 16777216, n / 65536 % 256, n / 256 % 256, n % 256))
    fun {a b} hok h => by
      have h2 := u8_ok_iff.mp hok.2.1
      have h3 := u8_ok_iff.mp hok.2.2.1
      have h4 := u8_ok_iff.mp hok.2.2.2
      obtain ⟨w, x, y, z⟩ := a
      cases h
      simp only [Prod.mk.injEq] at h2 h3 h4 ⊢
      omega

theorem u32_ok_iff : u32.Ok n ↔ n < 4294967296 := by
  simp only [u32, Codec.pmap, Codec.pair, u8_ok_iff, Option.some.injEq]
  omega

/-! The three widths are big-endian numbers. -/

theorem u8_parse : u8.parse = pmap (block 1).parse fun b => some (bigEndian 256 (b.map toNat)) := by
  funext s
  rcases s with _ | ⟨a, s⟩
  · rfl
  · simp [u8, Codec.pmap, Parser.pmap, Codec.symbol, Codec.block, bigEndian]

theorem u16_parse : u16.parse = pmap (block 2).parse fun b => some (bigEndian 256 (b.map toNat))
    := by
  funext s
  rcases s with _ | ⟨a, _ | ⟨b, s⟩⟩
  · rfl
  · rfl
  · simp [u16, u8, Codec.pmap, Codec.pair, Parser.pmap, Parser.bind, Parser.pure, Codec.symbol,
      block, bigEndian]

theorem u32_parse : u32.parse = pmap (block 4).parse fun b => some (bigEndian 256 (b.map toNat))
    := by
  funext s
  rcases s with _ | ⟨a, _ | ⟨b, _ | ⟨c, _ | ⟨d, s⟩⟩⟩⟩
  · rfl
  · rfl
  · rfl
  · rfl
  have hval : bigEndian 256 ([a, b, c, d].map toNat) =
      a.toNat * 16777216 + b.toNat * 65536 + c.toNat * 256 + d.toNat := by
    simp only [bigEndian, map_cons, map_nil, foldl_cons, foldl_nil]
    ring
  have hprs : u32.parse (a :: b :: c :: d :: s) =
      some (a.toNat * 16777216 + b.toNat * 65536 + c.toNat * 256 + d.toNat, s) := rfl
  rw [hprs, ← hval]
  simp [Parser.pmap, block]

/-! ## Text -/

/-- A length and that many bytes, with a limit on the length. -/
def counted (length : Codec UInt8 ℕ) (limit : ℕ) : Codec UInt8 Bytes :=
  (length.pair fun n => block n).pmap (fun x => if x.1 ≤ limit then some x.2 else none)
    (fun b => (b.length, b)) fun {a b} hok h => by
      have hlen : a.2.length = a.1 := hok.2
      split_ifs at h
      cases h
      rw [hlen]

theorem counted_ok_iff {length : Codec UInt8 ℕ} {limit : ℕ} {b : Bytes} :
    (counted length limit).Ok b ↔ length.Ok b.length ∧ b.length ≤ limit := by
  simp [counted, Codec.pmap, Codec.pair, Codec.block]

theorem pmap_counted {α : Type} (length : Codec UInt8 ℕ) (limit : ℕ) (f : Bytes → Option α) :
    pmap (counted length limit).parse f = bind length.parse fun n =>
      if n ≤ limit then pmap (block n).parse f else fun _ => none := by
  have hpair : pmap (counted length limit).parse f = bind length.parse fun n =>
      pmap (block n).parse fun b => (if n ≤ limit then some b else none).bind f :=
    (pmap_pmap _ _ _).trans (pmap_pair _ _ _)
  rw [hpair]
  refine congrArg (bind length.parse) (funext fun n => funext fun s => ?_)
  by_cases hn : n ≤ limit
  · simp [hn]
  · cases hb : (block (σ := UInt8) n).parse s <;> simp [Parser.pmap, hn, hb]

/-- Bytes that pass the UTF-8 check, as text. -/
def toStr (b : Bytes) : Option Str :=
  if h : utf8 b = true then some ⟨b, h⟩ else none

theorem toStr_bytes (s : Str) : toStr s.bytes = some s := by
  rw [toStr, dif_pos s.valid]

theorem toStr_eq_some {b : Bytes} (h : toStr b = some s) : s.bytes = b := by
  rw [toStr] at h
  split_ifs at h
  cases h
  rfl

/-- Counted text. -/
def countedText (length : Codec UInt8 ℕ) (limit : ℕ) : Codec UInt8 Str :=
  (counted length limit).pmap toStr bytes fun _ h => toStr_eq_some h

theorem countedText_ok_iff {length : Codec UInt8 ℕ} {limit : ℕ} :
    (countedText length limit).Ok s ↔ length.Ok s.bytes.length ∧ s.bytes.length ≤ limit := by
  simp [countedText, Codec.pmap, counted_ok_iff, toStr_bytes]

/-- The format of a name. -/
def name : Codec UInt8 Str := countedText u16 1024

/-- The format of a text. -/
def text : Codec UInt8 Str := countedText u32 1048576

theorem name_ok_iff : name.Ok s ↔ s.bytes.length ≤ 1024 := by
  rw [name, countedText_ok_iff, u16_ok_iff]
  omega

theorem text_ok_iff : text.Ok s ↔ s.bytes.length ≤ 1048576 := by
  rw [text, countedText_ok_iff, u32_ok_iff]
  omega

/-! ## Naturals -/

/-- The decimal digits of a number, of which zero has one. -/
def digitCount (value : ℕ) : ℕ := max 1 (Nat.digits 10 value).length

/-- The number that a minimal big-endian magnitude spells. -/
def toNatural (b : Bytes) : Option ℕ :=
  if b.head? = some 0 then none
  else
    let value := bigEndian 256 (b.map toNat)
    if digitCount value ≤ 4096 then some value else none

/-- The minimal big-endian magnitude. -/
def ofNatural (value : ℕ) : Bytes := (Nat.digits 256 value).reverse.map ofNat

theorem map_toNat_ofNatural (value : ℕ) :
    (ofNatural value).map toNat = (Nat.digits 256 value).reverse := by
  rw [ofNatural, map_map]
  have h : ∀ d ∈ (Nat.digits 256 value).reverse, (toNat ∘ ofNat) d = id d := by
    intro d hd
    have hlt : d < 256 := Nat.digits_lt_base (by decide) (mem_reverse.mp hd)
    simp only [Function.comp_apply, id_eq, toNat_ofNat']
    omega
  rw [map_congr_left h, map_id]

theorem head?_map_toNat (b : Bytes) : (b.map toNat).head? = some 0 ↔ b.head? = some 0 := by
  cases b with
  | nil => simp
  | cons x b =>
    simp only [map_cons, head?_cons, Option.some.injEq]
    exact UInt8.toNat_inj (b := 0)

theorem ofNatural_of_toNatural {b : Bytes} {value : ℕ} (h : toNatural b = some value) :
    ofNatural value = b := by
  rw [toNatural] at h
  split_ifs at h with h0
  simp only at h
  split_ifs at h
  cases h
  have hlt : ∀ d ∈ b.map toNat, d < 256 := by
    intro d hd
    obtain ⟨x, _, rfl⟩ := mem_map.mp hd
    exact x.toNat_lt
  have hdig := digits_bigEndian (by decide) hlt fun hhead => h0 ((head?_map_toNat b).mp hhead)
  rw [ofNatural, hdig, map_map]
  have hid : (UInt8.ofNat ∘ UInt8.toNat) = id := funext fun x => UInt8.ofNat_toNat
  rw [hid, map_id]

theorem toNatural_ofNatural {value : ℕ} (h : digitCount value ≤ 4096) :
    toNatural (ofNatural value) = some value := by
  have hhead : (ofNatural value).head? ≠ some 0 := by
    rw [Ne, ← head?_map_toNat, map_toNat_ofNatural]
    exact head?_reverse_digits_ne_zero value
  rw [toNatural, if_neg hhead]
  simp only [map_toNat_ofNatural, bigEndian_reverse_digits, if_pos h]

/-- `natural magnitude`. -/
def natural : Codec UInt8 ℕ :=
  (counted u16 1701).pmap toNatural ofNatural fun _ h => ofNatural_of_toNatural h

/-- A number of at most `4096` decimal digits fits: its magnitude has at most `1701` bytes. -/
theorem length_ofNatural_le {value : ℕ} (h : digitCount value ≤ 4096) :
    (ofNatural value).length ≤ 1701 := by
  have hlt : value < 10 ^ 4096 := by
    rw [← Nat.digits_length_le_iff (by decide)]
    exact (le_max_right _ _).trans h
  rw [ofNatural, length_map, length_reverse, Nat.digits_length_le_iff (by decide)]
  exact hlt.trans_le (by decide +kernel)

theorem natural_ok_iff {value : ℕ} : natural.Ok value ↔ digitCount value ≤ 4096 := by
  constructor
  · rintro ⟨_, h⟩
    rw [toNatural] at h
    split_ifs at h with h0
    simp only [map_toNat_ofNatural, bigEndian_reverse_digits] at h
    split_ifs at h with h1
    exact h1
  · intro h
    have hlen := length_ofNatural_le h
    refine ⟨counted_ok_iff.mpr ⟨u16_ok_iff.mpr (by omega), hlen⟩, toNatural_ofNatural h⟩

/-! ## Decimals -/

/-- The digits of packed nibbles, high nibble first; an odd final nibble is `15`. -/
def unpack : ℕ → Bytes → Option (List ℕ)
  | 0, [] => some []
  | 1, [b] => if b.toNat / 16 ≤ 9 ∧ b.toNat % 16 = 15 then some [b.toNat / 16] else none
  | n + 2, b :: rest =>
    if b.toNat / 16 ≤ 9 ∧ b.toNat % 16 ≤ 9 then
      (unpack n rest).map fun digits => b.toNat / 16 :: b.toNat % 16 :: digits
    else none
  | _, _ => none

/-- Two digits in a byte. -/
def pack : List ℕ → Bytes
  | [] => []
  | [d] => [ofNat (d * 16 + 15)]
  | d :: e :: digits => ofNat (d * 16 + e) :: pack digits

theorem pack_of_unpack : ∀ {n : ℕ} {b : Bytes} {digits : List ℕ}, unpack n b = some digits →
    pack digits = b ∧ digits.length = n ∧ ∀ d ∈ digits, d ≤ 9
  | 0, [], digits, h => by
    cases h
    simp [pack]
  | 1, [b], digits, h => by
    rw [unpack] at h
    split_ifs at h with hb
    cases h
    refine ⟨?_, rfl, by simpa using hb.1⟩
    have hval : b.toNat / 16 * 16 + 15 = b.toNat := by omega
    rw [pack, hval, UInt8.ofNat_toNat]
  | n + 2, b :: rest, digits, h => by
    rw [unpack] at h
    split_ifs at h with hb
    obtain ⟨digits', h', rfl⟩ := Option.map_eq_some_iff.mp h
    obtain ⟨hpack, hlen, hle⟩ := pack_of_unpack h'
    have hval : b.toNat / 16 * 16 + b.toNat % 16 = b.toNat := by omega
    refine ⟨by rw [pack, hval, UInt8.ofNat_toNat, hpack], by simp [hlen], ?_⟩
    intro d hd
    rcases mem_cons.mp hd with rfl | hd
    · exact hb.1
    rcases mem_cons.mp hd with rfl | hd
    · exact hb.2
    · exact hle d hd
  | 0, _ :: _, _, h | 1, [], _, h | 1, _ :: _ :: _, _, h | _ + 2, [], _, h => by cases h

theorem unpack_pack : ∀ {digits : List ℕ}, (∀ d ∈ digits, d ≤ 9) →
    unpack digits.length (pack digits) = some digits
  | [], _ => rfl
  | [d], h => by
    have hd : d ≤ 9 := h d mem_cons_self
    have hval : (ofNat (d * 16 + 15)).toNat = d * 16 + 15 := by
      rw [toNat_ofNat']
      omega
    have h1 : (d * 16 + 15) / 16 = d := by omega
    have h2 : (d * 16 + 15) % 16 = 15 := by omega
    rw [pack, length_singleton, unpack, hval, h1, if_pos ⟨hd, h2⟩]
  | d :: e :: digits, h => by
    have hd : d ≤ 9 := h d mem_cons_self
    have he : e ≤ 9 := h e (mem_cons_of_mem _ mem_cons_self)
    have hval : (ofNat (d * 16 + e)).toNat = d * 16 + e := by
      rw [toNat_ofNat']
      omega
    have h1 : (d * 16 + e) / 16 = d := by omega
    have h2 : (d * 16 + e) % 16 = e := by omega
    have ih := unpack_pack fun x hx => h x (mem_cons_of_mem _ (mem_cons_of_mem _ hx))
    rw [pack, length_cons, length_cons, unpack, hval, h1, h2, if_pos ⟨hd, he⟩, ih]
    rfl

theorem length_pack : ∀ digits : List ℕ, (pack digits).length = (digits.length + 1) / 2
  | [] => rfl
  | [_] => by simp [pack]
  | _ :: _ :: digits => by
    rw [pack, length_cons, length_pack digits, length_cons, length_cons]
    omega

/-- The magnitude of an `i16` in two's complement. -/
def i16Magnitude (encoded : ℕ) : ℕ := if 32768 ≤ encoded then 65536 - encoded else encoded

/-- The `i16` of a sign and a magnitude. -/
def ofI16 (negative : Bool) (magnitude : ℕ) : ℕ := if negative then 65536 - magnitude else magnitude

/-- The fields of a decimal: sign, exponent, digit count and packed digits. -/
abbrev DecimalFields := ℕ × ℕ × ℕ × Bytes

def toDecimal : DecimalFields → Option ConstantValue
  | (sign, exponent, count, packed) =>
    if sign ≤ 1 ∧ i16Magnitude exponent ≤ 4096 ∧ count ≠ 0 ∧ count ≤ 4096 then
      match unpack count packed with
      | none => none
      | some digits =>
        if 1 < digits.length ∧ digits.head? = some 0 then none
        else some (.decimalPartsConstant (sign = 1) digits (32768 ≤ exponent)
          (i16Magnitude exponent))
    else none

/-- The fields of a decimal. -/
def ofDecimal : ConstantValue → DecimalFields
  | .decimalPartsConstant negative digits exponentNegative exponentMagnitude =>
    (if negative then 1 else 0, ofI16 exponentNegative exponentMagnitude, digits.length,
      pack digits)
  | _ => (0, 0, 0, [])

theorem ofDecimal_of_toDecimal {fields : DecimalFields} (hexp : fields.2.1 < 65536)
    (h : toDecimal fields = some value) : ofDecimal value = fields := by
  obtain ⟨sign, exponent, count, packed⟩ := fields
  rw [toDecimal] at h
  split_ifs at h with hf
  rcases hu : unpack count packed with _ | digits
  · simp [hu] at h
  simp only [hu] at h
  split_ifs at h with hz
  cases h
  obtain ⟨hpack, hlen, _⟩ := pack_of_unpack hu
  have hs : sign = 0 ∨ sign = 1 := by omega
  have hsign : (if decide (sign = 1) = true then 1 else 0) = sign := by
    rcases hs with rfl | rfl <;> rfl
  have he : ofI16 (decide (32768 ≤ exponent)) (i16Magnitude exponent) = exponent := by
    unfold ofI16 i16Magnitude
    by_cases h : 32768 ≤ exponent
    · simp only [h, decide_true, if_true]
      simp only at hexp
      omega
    · simp [h]
  rw [ofDecimal, hsign, he, hlen, hpack]

/-- The format of a decimal. -/
def decimal : Codec UInt8 ConstantValue :=
  (u8.pair fun _ => u16.pair fun _ => u16.pair fun count => block ((count + 1) / 2)).pmap
    toDecimal ofDecimal fun hok h => ofDecimal_of_toDecimal (u16_ok_iff.mp hok.2.1) h

/-- What a decimal can hold: digits without a leading zero, and an exponent in range that has one
representation. -/
structure DecimalFits (digits : List ℕ) (exponentNegative : Bool) (exponentMagnitude : ℕ) :
    Prop where
  digit : ∀ d ∈ digits, d ≤ 9
  pos : digits ≠ []
  length : digits.length ≤ 4096
  leading : 1 < digits.length → digits.head? ≠ some 0
  exponent : exponentMagnitude ≤ 4096
  zero : exponentNegative = true → exponentMagnitude ≠ 0

theorem decimal_ok {negative : Bool} {digits : List ℕ} {exponentNegative : Bool}
    {exponentMagnitude : ℕ} (h : DecimalFits digits exponentNegative exponentMagnitude) :
    decimal.Ok (.decimalPartsConstant negative digits exponentNegative exponentMagnitude) := by
  have hpos : digits.length ≠ 0 := fun h0 => h.pos (length_eq_zero_iff.mp h0)
  have hlen := h.length
  have hexp := h.exponent
  have hfield : ofI16 exponentNegative exponentMagnitude < 65536 := by
    cases hn : exponentNegative with
    | false =>
      simp only [ofI16, Bool.false_eq_true, if_false]
      omega
    | true =>
      have := h.zero hn
      simp only [ofI16, if_true]
      omega
  have hmag : i16Magnitude (ofI16 exponentNegative exponentMagnitude) = exponentMagnitude := by
    cases hn : exponentNegative with
    | false =>
      simp only [ofI16, i16Magnitude, Bool.false_eq_true, if_false]
      rw [if_neg (by omega)]
    | true =>
      simp only [ofI16, i16Magnitude, if_true]
      rw [if_pos (by omega)]
      omega
  have hneg : decide (32768 ≤ ofI16 exponentNegative exponentMagnitude) = exponentNegative := by
    cases hn : exponentNegative with
    | false =>
      simp only [ofI16, Bool.false_eq_true, if_false, decide_eq_false_iff_not]
      omega
    | true =>
      simp only [ofI16, if_true, decide_eq_true_eq]
      omega
  have hsign : (if negative = true then 1 else 0) ≤ 1 ∧
      decide ((if negative = true then 1 else 0) = 1) = negative := by cases negative <;> decide
  refine ⟨⟨u8_ok_iff.mpr ?_, u16_ok_iff.mpr hfield, u16_ok_iff.mpr ?_, ?_⟩, ?_⟩
  · exact lt_of_le_of_lt hsign.1 (by decide)
  · simp only [ofDecimal]
    omega
  · exact length_pack digits
  show toDecimal (if negative = true then 1 else 0, ofI16 exponentNegative exponentMagnitude,
    digits.length, pack digits) = _
  rw [toDecimal, hmag, if_pos ⟨hsign.1, h.exponent, hpos, hlen⟩, unpack_pack h.digit]
  simp only
  rw [if_neg fun hz => h.leading hz.1 hz.2, hneg, hsign.2]

theorem decimalFits_of_ok {negative : Bool} {digits : List ℕ} {expNeg : Bool}
    {exponentMagnitude : ℕ}
    (h : decimal.Ok (.decimalPartsConstant negative digits expNeg exponentMagnitude)) :
    DecimalFits digits expNeg exponentMagnitude := by
  have hv : toDecimal (if negative then 1 else 0, ofI16 expNeg exponentMagnitude,
      digits.length, pack digits) =
      some (.decimalPartsConstant negative digits expNeg exponentMagnitude) := h.2
  have hfield : ofI16 expNeg exponentMagnitude < 65536 := u16_ok_iff.mp h.1.2.1
  generalize (if negative = true then 1 else 0) = sign at hv
  rw [toDecimal] at hv
  split_ifs at hv with hf
  rcases hu : unpack digits.length (pack digits) with _ | unpacked
  · simp [hu] at hv
  simp only [hu] at hv
  split_ifs at hv with hz
  simp only [Option.some.injEq, ConstantValue.decimalPartsConstant.injEq] at hv
  obtain ⟨_, rfl, hneg, hmag⟩ := hv
  obtain ⟨_, _, hdigit⟩ := pack_of_unpack hu
  obtain ⟨_, hexp, hcnt, hlen⟩ := hf
  refine ⟨hdigit, fun h0 => hcnt (by rw [h0]; rfl), hlen, fun h1 h2 => hz ⟨h1, h2⟩, ?_, ?_⟩
  · rw [hmag] at hexp
    exact hexp
  · rintro rfl rfl
    simp [ofI16] at hfield

/-! ## Constants -/

/-- The tag of a constant; a decimal literal has the tag of the decimal that it spells. -/
def constantTag : ConstantValue → ℕ
  | .natConstant _ => 0
  | .intConstant _ _ => 1
  | .decimalConstant _ | .decimalPartsConstant _ _ _ _ => 2
  | .stringConstant _ => 3
  | .boolConstant _ => 4
  | .voidConstant => 5

theorem constantTag_ok (value : ConstantValue) : u8.Ok (constantTag value) := by
  rw [u8_ok_iff]
  cases value <;> simp [constantTag]

/-- A signed integer has no negative zero. -/
def toInteger (x : ℕ × ℕ) : Option ConstantValue :=
  if x.1 ≤ 1 ∧ ¬ (x.1 = 1 ∧ x.2 = 0) then some (.intConstant (x.1 = 1) x.2) else none

def ofInteger : ConstantValue → ℕ × ℕ
  | .intConstant negative magnitude => (if negative then 1 else 0, magnitude)
  | _ => (0, 0)

theorem ofInteger_of_toInteger {x : ℕ × ℕ} (h : toInteger x = some value) :
    ofInteger value = x := by
  obtain ⟨sign, mag⟩ := x
  rw [toInteger] at h
  split_ifs at h with hx
  cases h
  have hs : sign = 0 ∨ sign = 1 := by omega
  rcases hs with rfl | rfl <;> rfl

/-- A Boolean is the byte 0 or 1. -/
def toBool (n : ℕ) : Option ConstantValue :=
  if n ≤ 1 then some (.boolConstant (n = 1)) else none

/-- The byte of a Boolean. -/
def ofBool : ConstantValue → ℕ
  | .boolConstant flag => if flag then 1 else 0
  | _ => 0

theorem ofBool_of_toBool (h : toBool n = some value) : ofBool value = n := by
  rw [toBool] at h
  split_ifs at h with hn
  cases h
  have hs : n = 0 ∨ n = 1 := by omega
  rcases hs with rfl | rfl <;> rfl

/-- The data that follow a constant tag. -/
def constantBody : ℕ → Codec UInt8 ConstantValue
  | 0 => natural.build .natConstant (fun | .natConstant n => n | _ => 0) fun _ => rfl
  | 1 => (u8.pair fun _ => natural).pmap toInteger ofInteger fun _ h => ofInteger_of_toInteger h
  | 2 => decimal
  | 3 => text.build .stringConstant (fun | .stringConstant s => s | _ => empty) fun _ => rfl
  | 4 => u8.pmap toBool ofBool fun _ h => ofBool_of_toBool h
  | 5 => unit .voidConstant
  | _ => fail

theorem constantTag_toInteger {x : ℕ × ℕ} (h : toInteger x = some value) :
    constantTag value = 1 := by
  rw [toInteger] at h
  split_ifs at h
  cases h
  rfl

theorem constantTag_toDecimal {x : DecimalFields} (h : toDecimal x = some value) :
    constantTag value = 2 := by
  rw [toDecimal] at h
  split_ifs at h
  split at h
  · cases h
  split_ifs at h
  cases h
  rfl

theorem constantTag_toBool (h : toBool n = some value) : constantTag value = 4 := by
  rw [toBool] at h
  split_ifs at h
  cases h
  rfl

theorem constantTag_of_ok {tag : ℕ} (h : (constantBody tag).Ok value) :
    constantTag value = tag := by
  unfold constantBody at h
  split at h
  · rw [← (build_ok_iff.mp h).2]
    rfl
  · exact constantTag_toInteger h.2
  · exact constantTag_toDecimal h.2
  · rw [← (build_ok_iff.mp h).2]
    rfl
  · exact constantTag_toBool h.2
  · rw [show value = .voidConstant from h]
    rfl
  · exact h.elim

/-- A constant: its tag and its data. -/
def constant : Codec UInt8 ConstantValue :=
  u8.tagged constantTag constantBody constantTag_of_ok

/-! ## Instructions -/

/-- `unary_operator` of the decoder. -/
def unaryOperator (code : ℕ) : Str := if code = 0 then ascii "-" else ascii "!"

/-- `unary_code` of the encoder. -/
def unaryCode (operator : Str) : ℕ := if operator = ascii "-" then 0 else 1

/-- `binary_operator` of the decoder. -/
def binaryOperator (code : ℕ) : Str :=
  if code = 0 then ascii "+"
  else if code = 1 then ascii "-"
  else if code = 2 then ascii "*"
  else if code = 3 then ascii "/"
  else if code = 4 then ascii "%"
  else if code = 5 then ascii "=="
  else if code = 6 then ascii "!="
  else if code = 7 then ascii "<"
  else if code = 8 then ascii "<="
  else if code = 9 then ascii ">"
  else if code = 10 then ascii ">="
  else if code = 11 then ascii "&&"
  else ascii "||"

/-- `binary_code` of the encoder. -/
def binaryCode (operator : Str) : ℕ :=
  if operator = ascii "+" then 0
  else if operator = ascii "-" then 1
  else if operator = ascii "*" then 2
  else if operator = ascii "/" then 3
  else if operator = ascii "%" then 4
  else if operator = ascii "==" then 5
  else if operator = ascii "!=" then 6
  else if operator = ascii "<" then 7
  else if operator = ascii "<=" then 8
  else if operator = ascii ">" then 9
  else if operator = ascii ">=" then 10
  else if operator = ascii "&&" then 11
  else 12

theorem unaryCode_unaryOperator (h : code ≤ 1) : unaryCode (unaryOperator code) = code := by
  interval_cases code <;> decide

theorem binaryCode_binaryOperator (h : code ≤ 12) : binaryCode (binaryOperator code) = code := by
  interval_cases code <;> decide

/-- The operator of a code. -/
def toUnary (code : ℕ) : Option Instruction :=
  if code ≤ 1 then some (.unaryInstruction (unaryOperator code)) else none

/-- The code of an operator. -/
def ofUnary : Instruction → ℕ
  | .unaryInstruction operator => unaryCode operator
  | _ => 0

/-- The operator of a code. -/
def toBinary (code : ℕ) : Option Instruction :=
  if code ≤ 12 then some (.binaryInstruction (binaryOperator code)) else none

/-- The code of an operator. -/
def ofBinary : Instruction → ℕ
  | .binaryInstruction operator => binaryCode operator
  | _ => 0

theorem ofUnary_of_toUnary (h : toUnary code = some i) : ofUnary i = code := by
  rw [toUnary] at h
  split_ifs at h with hc
  cases h
  exact unaryCode_unaryOperator hc

theorem ofBinary_of_toBinary (h : toBinary code = some i) : ofBinary i = code := by
  rw [toBinary] at h
  split_ifs at h with hc
  cases h
  exact binaryCode_binaryOperator hc

/-- The opcode of an instruction; a pending jump has none. -/
def opcode : Instruction → ℕ
  | .constInstruction _ => 0
  | .loadInstruction _ => 1
  | .storeInstruction _ => 2
  | .popInstruction => 3
  | .unaryInstruction _ => 4
  | .binaryInstruction _ => 5
  | .makeRangeInstruction => 6
  | .makeArrayInstruction _ => 7
  | .indexGetInstruction => 8
  | .interpolateInstruction _ => 9
  | .iterInitInstruction _ => 10
  | .iterNextInstruction _ _ _ => 11
  | .makeRecordInstruction _ _ => 12
  | .fieldGetInstruction _ => 13
  | .makeVariantInstruction _ _ _ => 14
  | .matchVariantInstruction _ _ => 15
  | .matchFailInstruction => 16
  | .callInstruction _ _ => 17
  | .jumpFalseInstruction _ => 18
  | .jumpInstruction _ => 19
  | .returnInstruction => 20
  | .callValueInstruction _ => 21
  | .awaitCallInstruction _ _ => 22
  | .awaitValueInstruction _ => 23
  | .pendingEndJumpInstruction => 24

theorem opcode_ok (i : Instruction) : u8.Ok (opcode i) := by
  rw [u8_ok_iff]
  cases i <;> simp [opcode]

/-- The operand that follows an opcode. -/
def operand : ℕ → Codec UInt8 Instruction
  | 0 => constant.build .constInstruction
      (fun | .constInstruction c => c | _ => .voidConstant) fun _ => rfl
  | 1 => name.build .loadInstruction
      (fun | .loadInstruction n => n | _ => empty) fun _ => rfl
  | 2 => name.build .storeInstruction
      (fun | .storeInstruction n => n | _ => empty) fun _ => rfl
  | 3 => unit .popInstruction
  | 4 => u8.pmap toUnary ofUnary fun _ h => ofUnary_of_toUnary h
  | 5 => u8.pmap toBinary ofBinary fun _ h => ofBinary_of_toBinary h
  | 6 => unit .makeRangeInstruction
  | 7 => u16.build .makeArrayInstruction
      (fun | .makeArrayInstruction n => n | _ => 0) fun _ => rfl
  | 8 => unit .indexGetInstruction
  | 9 => (u16.list text).build .interpolateInstruction
      (fun | .interpolateInstruction parts => parts | _ => []) fun _ => rfl
  | 10 => name.build .iterInitInstruction
      (fun | .iterInitInstruction n => n | _ => empty) fun _ => rfl
  | 11 => (name.pair fun _ => name.pair fun _ => u32).build
      (fun x => .iterNextInstruction x.1 x.2.1 x.2.2)
      (fun | .iterNextInstruction i n stop => (i, n, stop) | _ => (empty, empty, 0))
      fun _ => rfl
  | 12 => (name.pair fun _ => u16.list name).build (fun x => .makeRecordInstruction x.1 x.2)
      (fun | .makeRecordInstruction n fields => (n, fields) | _ => (empty, [])) fun _ => rfl
  | 13 => name.build .fieldGetInstruction
      (fun | .fieldGetInstruction n => n | _ => empty) fun _ => rfl
  | 14 => (name.pair fun _ => name.pair fun _ => u16).build
      (fun x => .makeVariantInstruction x.1 x.2.1 x.2.2)
      (fun | .makeVariantInstruction e v n => (e, v, n) | _ => (empty, empty, 0))
      fun _ => rfl
  | 15 => (name.pair fun _ => u32).build (fun x => .matchVariantInstruction x.1 x.2)
      (fun | .matchVariantInstruction v f => (v, f) | _ => (empty, 0)) fun _ => rfl
  | 16 => unit .matchFailInstruction
  | 17 => (name.pair fun _ => u8).build (fun x => .callInstruction x.1 x.2)
      (fun | .callInstruction n a => (n, a) | _ => (empty, 0)) fun _ => rfl
  | 18 => u32.build .jumpFalseInstruction (fun | .jumpFalseInstruction t => t | _ => 0) fun _ => rfl
  | 19 => u32.build .jumpInstruction (fun | .jumpInstruction t => t | _ => 0) fun _ => rfl
  | 20 => unit .returnInstruction
  | 21 => u8.build .callValueInstruction (fun | .callValueInstruction a => a | _ => 0) fun _ => rfl
  | 22 => (name.pair fun _ => u8).build (fun x => .awaitCallInstruction x.1 x.2)
      (fun | .awaitCallInstruction n a => (n, a) | _ => (empty, 0)) fun _ => rfl
  | 23 => u8.build .awaitValueInstruction
      (fun | .awaitValueInstruction a => a | _ => 0) fun _ => rfl
  | _ => fail

theorem opcode_toUnary (h : toUnary code = some i) : opcode i = 4 := by
  rw [toUnary] at h
  split_ifs at h
  cases h
  rfl

theorem opcode_toBinary (h : toBinary code = some i) : opcode i = 5 := by
  rw [toBinary] at h
  split_ifs at h
  cases h
  rfl

theorem opcode_of_ok {op : ℕ} (h : (operand op).Ok i) : opcode i = op := by
  unfold operand at h
  split at h
  case h_5 => exact opcode_toUnary h.2
  case h_6 => exact opcode_toBinary h.2
  case h_25 => exact h.elim
  all_goals first
      | (rw [← (build_ok_iff.mp h).2]; rfl)
      | (cases h; rfl)

/-- An instruction: its opcode and its operand. -/
def instruction : Codec UInt8 Instruction := u8.tagged opcode operand opcode_of_ok

/-! ## Functions -/

/-- The effect flags: `0` ordinary, `1` pure, `2` async. -/
def flags (function : FunctionCode) : ℕ :=
  if function.isAsync then 2 else if function.isPure then 1 else 0

def toFunction : Str × ℕ × List Str × List Instruction → Option FunctionCode
  | (name, flags, parameters, instructions) =>
    if flags ≤ 2 ∧ instructions.length ≤ 1000000 then
      some ⟨name, parameters, flags = 1, flags = 2, instructions⟩
    else none

/-- The fields of a function. -/
def ofFunction (function : FunctionCode) : Str × ℕ × List Str × List Instruction :=
  (function.name, flags function, function.parameters, function.instructions)

theorem ofFunction_of_toFunction {x : Str × ℕ × List Str × List Instruction} {f : FunctionCode}
    (h : toFunction x = some f) : ofFunction f = x := by
  obtain ⟨name, flag, params, instrs⟩ := x
  rw [toFunction] at h
  split_ifs at h with hx
  cases h
  have hflag : flag = 0 ∨ flag = 1 ∨ flag = 2 := by omega
  rcases hflag with rfl | rfl | rfl <;> rfl

/-- A function: name, flags, parameters and instructions. -/
def functionCode : Codec UInt8 FunctionCode :=
  (name.pair fun _ => u8.pair fun _ => (u8.list name).pair fun _ => u32.list instruction).pmap
    toFunction ofFunction fun _ h => ofFunction_of_toFunction h

/-! ## Artifacts -/

/-- The nine bytes that start every artifact. -/
def magic : Bytes := asciiBytes "PANACKBC" ++ [0]

/-- The instructions of a whole program. -/
def totalInstructions (functions : List FunctionCode) : ℕ :=
  (functions.map fun f => f.instructions.length).sum

/-- The table of its fields. -/
def toTable : Bytes × ℕ × List FunctionCode → Option (List FunctionCode)
  | (start, version, functions) =>
    if start = magic ∧ version = 9 ∧ functions.length ≤ 4096 ∧
        totalInstructions functions ≤ 4000000 then some functions
    else none

theorem toTable_eq_some {x : Bytes × ℕ × List FunctionCode} {fs : List FunctionCode}
    (h : toTable x = some fs) : (magic, 9, fs) = x := by
  obtain ⟨start, version, fns⟩ := x
  rw [toTable] at h
  split_ifs at h with hx
  cases h
  rw [hx.1, hx.2.1]

/-- The header and the functions. -/
def functionTable : Codec UInt8 (List FunctionCode) :=
  ((block 9).pair fun _ => u16.pair fun _ => u16.list functionCode).pmap toTable
    (fun fs => (magic, 9, fs)) fun _ h => toTable_eq_some h

theorem instruction_ok_of_table {fns : List FunctionCode} (h : functionTable.Ok fns)
    {f : FunctionCode} (hf : f ∈ fns) (hi : i ∈ f.instructions) : instruction.Ok i := by
  have hfn : functionCode.Ok f := (list_ok_iff.mp h.1.2.2).2 f hf
  exact (list_ok_iff.mp hfn.1.2.2.2).2 i hi

theorem totalInstructions_le_of_table {functions : List FunctionCode}
    (h : functionTable.Ok functions) : totalInstructions functions ≤ 4000000 := by
  have htable : toTable (magic, 9, functions) = some functions := h.2
  rw [toTable] at htable
  split_ifs at htable with hlims
  exact hlims.2.2.2

/-- An artifact is the print of its function table, so no table has two artifacts. -/
theorem functionTable_canonical {data : Bytes} {fs : List FunctionCode}
    (h : functionTable.parse data = some (fs, [])) : data = functionTable.print fs := by
  rw [(functionTable.print_parse h).1, append_nil]

end Panackelty.Bytecode.Format
