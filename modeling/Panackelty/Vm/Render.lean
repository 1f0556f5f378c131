import Panackelty.Vm.BigintText
import Panackelty.Vm.Decimals

/-!
# The text of a decimal

`render_decimal` writes the digits of the coefficient in one of three layouts.  `readNumeral` reads
a text back as a sign, the digits before the point and the digits after it.

* `Numeral.Exact`: the numeral denotes the decimal, at its scale and without a redundant zero.
* `exact_whole_iff`, `exact_places_iff`: what is read back of the layouts.
-/

namespace Panackelty.Vm

open Library.Digits List Decimal

/-- The layouts for a negative exponent. -/
def renderPlaces (digits : Bytes) (places : ℕ) : Bytes :=
  if places < digits.length then
    digits.take (digits.length - places) ++ [46] ++ digits.drop (digits.length - places)
  else [48, 46] ++ replicate (places - digits.length) 48 ++ digits

/-- `render_decimal`. -/
def renderDecimal (d : Decimal) : Bytes :=
  let raw := pnBigString d.coefficient.raw
  let digits := textDigits raw
  (if raw.head? = some 45 || d.negativeZero then [45] else []) ++
    if 0 ≤ d.exponent then digits ++ replicate d.exponent.toNat 48
    -- the exponent is negated as an `int`
    else renderPlaces digits (sizeOfInt (wrapInt (-d.exponent)))

/-! ## Reading a numeral -/

/-- A rendered decimal. -/
structure Numeral where
  negative : Bool
  whole : Bytes
  fraction : Bytes

/-- A text up to its point and after it, without the sign. -/
def readNumeral (text : Bytes) : Numeral :=
  ⟨text.head? = some 45, (textDigits text).takeWhile (· ≠ 46),
    ((textDigits text).dropWhile (· ≠ 46)).tail⟩

/-- The rational number that a numeral denotes. -/
def Numeral.denote (numeral : Numeral) : ℚ :=
  (if numeral.negative then -1 else 1) *
    bigEndian 10 ((numeral.whole ++ numeral.fraction).map digitValue) / 10 ^ numeral.fraction.length

/-- Digits that begin with a zero only if they are `0`. -/
def NoLeadingZero (whole : Bytes) : Prop := whole = [48] ∨ whole ≠ [] ∧ whole.head? ≠ some 48

/-- The numeral denotes the decimal, with the digits after the point that the exponent asks for. -/
structure Numeral.Exact (numeral : Numeral) (d : Decimal) : Prop where
  digits : ∀ c ∈ numeral.whole ++ numeral.fraction, IsDigit c
  value : numeral.denote = d.denote
  scale : numeral.fraction.length = (-d.exponent).toNat
  leading : NoLeadingZero numeral.whole

section Reading

variable {whole fraction : Bytes} (hwhole : ∀ c ∈ whole, IsDigit c) (hne : whole ≠ [])
  (negative : Bool)
include hwhole hne

theorem head?_ne_minus (more : Bytes) : (whole ++ more).head? ≠ some 45 := by
  obtain ⟨c, whole, rfl⟩ := exists_cons_of_ne_nil hne
  intro h
  have hminus : IsDigit 45 := Option.some_inj.mp h ▸ hwhole c mem_cons_self
  exact absurd hminus (by decide)

theorem readNumeral_sign {more : Bytes}
    (hmore : more = [] ∧ fraction = [] ∨ more = 46 :: fraction) :
    readNumeral ((if negative then [45] else []) ++ (whole ++ more)) =
      ⟨negative, whole, fraction⟩ := by
  have hhead := head?_ne_minus hwhole hne more
  have hdig : textDigits ((if negative then [45] else []) ++ (whole ++ more)) = whole ++ more := by
    rcases negative with _ | _
    · exact if_neg hhead
    · rfl
  have hsign : decide (((if negative then [45] else []) ++ (whole ++ more)).head? = some 45) =
      negative := by
    rcases negative with _ | _
    · exact decide_eq_false hhead
    · rfl
  have hpoint : ∀ c ∈ whole, decide (c ≠ 46) = true := fun c hc =>
    decide_eq_true fun h => absurd (h ▸ hwhole c hc : IsDigit 46) (by decide)
  have htake := takeWhile_eq_self_iff.mpr hpoint
  have hdrop := dropWhile_eq_nil_iff.mpr hpoint
  rw [readNumeral, hdig, hsign]
  rcases hmore with ⟨rfl, rfl⟩ | rfl
  · rw [append_nil, htake, hdrop]
    rfl
  · rw [takeWhile_append, htake, if_pos rfl, dropWhile_append, hdrop]
    simp

end Reading

/-! ## The layouts -/

theorem map_zeros (k : ℕ) :
    (replicate k (48 : UInt8)).map digitValue = replicate k 0 := map_replicate

theorem isDigit_of_mem_zeros {k : ℕ} : ∀ c ∈ replicate k (48 : UInt8), IsDigit c := by
  intro c hc
  rw [eq_of_mem_replicate hc]
  decide

theorem decimalText_ne_nil (m : ℕ) : decimalText m ≠ [] := by
  intro h
  have hspell := bigEndian_decimalText m
  rw [h] at hspell
  subst hspell
  cases h

theorem head?_decimalText {m : ℕ} (h : m ≠ 0) : (decimalText m).head? ≠ some 48 := by
  rw [decimalText_of_ne_zero h, digitText, head?_map]
  intro hhead
  obtain ⟨digit, hdigit, hchar⟩ := Option.map_eq_some_iff.mp hhead
  have hlt := Nat.digits_lt_base (by decide : 1 < 10) (mem_reverse.mp (mem_of_mem_head? hdigit))
  have hzero : digit = 0 := by rw [← digitValue_digitChar hlt, hchar]; rfl
  exact head?_reverse_digits_ne_zero m (hzero ▸ hdigit)

/-- The digits before and after the point spell a number. -/
structure Spells (m : ℕ) (whole fraction : Bytes) : Prop where
  digits : ∀ c ∈ whole ++ fraction, IsDigit c
  nonempty : whole ≠ []
  number : bigEndian 10 ((whole ++ fraction).map digitValue) = m

theorem renderPlaces_spells (m : ℕ) {places : ℕ} (hplc : places ≠ 0) :
    ∃ whole fraction, renderPlaces (decimalText m) places = whole ++ 46 :: fraction ∧
      Spells m whole fraction ∧ fraction.length = places ∧ NoLeadingZero whole := by
  have hdig := @isDigit_of_mem_decimalText m
  have hnum := bigEndian_decimalText m
  have hne := decimalText_ne_nil m
  have hhead : 1 < (decimalText m).length → (decimalText m).head? ≠ some 48 := fun hlt =>
    head?_decimalText (by rintro rfl; exact absurd hlt (by decide))
  generalize decimalText m = text at *
  by_cases hlt : places < text.length
  · have hcnt : text.length - places ≠ 0 := by omega
    have htake : text.take (text.length - places) ≠ [] := fun h =>
      (take_eq_nil_iff.mp h).elim hcnt hne
    refine ⟨_, text.drop (text.length - places),
      by rw [renderPlaces, if_pos hlt, append_assoc]; rfl,
      ⟨by rwa [take_append_drop], htake, by rw [take_append_drop, hnum]⟩,
      by rw [length_drop]; omega, .inr ⟨htake, ?_⟩⟩
    rw [head?_take, if_neg hcnt]
    exact hhead (by omega)
  · refine ⟨[48], replicate (places - text.length) 48 ++ text,
      by rw [renderPlaces, if_neg hlt]; rfl, ⟨?_, by simp, ?_⟩,
      by rw [length_append, length_replicate]; omega, .inl rfl⟩
    · simp only [mem_append, mem_singleton]
      rintro c (rfl | hc | hc)
      · decide
      · exact isDigit_of_mem_zeros c hc
      · exact hdig c hc
    · rw [map_append, map_append, map_zeros, bigEndian_append, bigEndian_append, hnum,
        bigEndian_replicate_zero]
      simp [bigEndian, digitValue]

/-! ## The text of a decimal -/

section Text

variable {d : Decimal}

/-- The minus sign in front. -/
def Decimal.minus (d : Decimal) : Bool :=
  (pnBigString d.coefficient.raw).head? = some 45 || d.negativeZero

/-- The digits of the coefficient. -/
def Decimal.digits (d : Decimal) : Bytes := decimalText d.coefficient.raw.magnitude

theorem renderDecimal_eq (d : Decimal) : renderDecimal d = (if d.minus then [45] else []) ++
    if 0 ≤ d.exponent then d.digits ++ replicate d.exponent.toNat 48
    else renderPlaces d.digits (sizeOfInt (wrapInt (-d.exponent))) := by
  rw [renderDecimal, textDigits_pnBigString d.coefficient.normal]
  rfl

theorem magnitude_eq_zero_iff (d : Decimal) :
    d.coefficient.raw.magnitude = 0 ↔ d.coefficient.toInt = 0 := by
  rw [← d.coefficient.normal.natAbs_toInt, Int.natAbs_eq_zero]
  rfl

theorem minus_mul_magnitude (h : Stored d) :
    (if d.minus then -1 else 1) * (d.coefficient.raw.magnitude : ℤ) = d.coefficient.toInt := by
  have hv := d.coefficient.normal
  by_cases hzero : d.negativeZero = true
  · rw [(magnitude_eq_zero_iff d).mpr (h.negativeZero hzero), h.negativeZero hzero]
    simp
  have hminus : d.minus = true ↔ d.coefficient.raw.sign < 0 := by
    rw [Decimal.minus, Bool.eq_false_iff.mpr hzero, Bool.or_false, decide_eq_true_iff,
      pnBigString_eq hv]
    split_ifs with hsign
    · exact iff_of_true rfl hsign
    refine iff_of_false ?_ hsign
    rw [nil_append, ← append_nil (decimalText _)]
    exact head?_ne_minus isDigit_of_mem_decimalText (decimalText_ne_nil _) []
  simp only [hminus]
  exact sign_mul_magnitude hv

variable {whole fraction more : Bytes} {k : ℕ}

/-- Digits that spell the coefficient, with the point moved, are a numeral for the decimal if they
have no leading zero and the fraction has its length. -/
theorem exact_iff (h : Stored d)
    (hrender : renderDecimal d = (if d.minus then [45] else []) ++ (whole ++ more))
    (hmore : more = [] ∧ fraction = [] ∨ more = 46 :: fraction)
    (hspells : Spells (d.coefficient.raw.magnitude * 10 ^ k) whole fraction)
    (hscale : (k : ℤ) - (-d.exponent).toNat = d.exponent) :
    (readNumeral (renderDecimal d)).Exact d ↔
      NoLeadingZero whole ∧ fraction.length = (-d.exponent).toNat := by
  rw [hrender, readNumeral_sign (fun c hc => hspells.digits c (mem_append_left _ hc))
    hspells.nonempty d.minus hmore]
  refine ⟨fun hexact => ⟨hexact.leading, hexact.scale⟩,
    fun ⟨hlead, hlen⟩ => ⟨hspells.digits, ?_, hlen, hlead⟩⟩
  have hval : (d.coefficient.toInt : ℚ) =
      (if d.minus then -1 else 1) * d.coefficient.raw.magnitude := by
    rw [← minus_mul_magnitude h]
    push_cast
    rfl
  rw [Numeral.denote, hspells.number, denote, hval, ← hscale, zpow_sub₀ (by norm_num),
    zpow_natCast, zpow_natCast, ← hlen]
  push_cast
  ring

theorem exact_whole_iff (h : Stored d) (he : 0 ≤ d.exponent) :
    (readNumeral (renderDecimal d)).Exact d ↔ d.coefficient.toInt ≠ 0 ∨ d.exponent ≤ 0 := by
  have hne : d.digits ≠ [] := decimalText_ne_nil _
  have heq := renderDecimal_eq d
  rw [if_pos he, ← append_nil (d.digits ++ _)] at heq
  rw [exact_iff h heq (.inl ⟨rfl, rfl⟩) (k := d.exponent.toNat) ⟨fun c hc => ?_, by simp [hne], ?_⟩
    (by omega), ne_eq, ← magnitude_eq_zero_iff, and_iff_left (by simp; omega)]
  · by_cases hzero : d.coefficient.raw.magnitude = 0
    · rw [or_iff_right (not_not_intro hzero), digits, hzero]
      simp [NoLeadingZero, decimalText, replicate_eq_nil_iff]
    · refine iff_of_true (.inr ⟨by simp [hne], ?_⟩) (.inl hzero)
      rw [head?_append_of_ne_nil _ hne]
      exact head?_decimalText hzero
  · rw [append_nil, map_append, map_zeros, bigEndian_append, bigEndian_replicate_zero,
      length_replicate, digits, bigEndian_decimalText, add_zero]
  · rw [append_nil] at hc
    exact (mem_append.mp hc).elim (isDigit_of_mem_decimalText c) (isDigit_of_mem_zeros c)

theorem exact_places_iff (h : Stored d) (he : d.exponent < 0) :
    (readNumeral (renderDecimal d)).Exact d ↔ d.exponent ≠ -2 ^ 31 := by
  have hrange := h.exponent
  unfold InInt at hrange
  have hplc : sizeOfInt (wrapInt (-d.exponent)) ≠ 0 ∧
      (sizeOfInt (wrapInt (-d.exponent)) = (-d.exponent).toNat ↔ d.exponent ≠ -2 ^ 31) := by
    unfold sizeOfInt wrapInt
    omega
  obtain ⟨whole, fraction, htext, hspells, hlen, hlead⟩ :=
    renderPlaces_spells d.coefficient.raw.magnitude hplc.1
  have heq := renderDecimal_eq d
  rw [if_neg (not_le.mpr he), digits, htext] at heq
  rw [exact_iff h heq (.inr rfl) (k := 0) (by rwa [pow_zero, mul_one]) (by omega), hlen,
    and_iff_right hlead, hplc.2]

end Text

/-- The text of a decimal is exact unless it is a zero with a positive exponent or the exponent has
no negation. -/
theorem renderDecimal_exact_iff (d : Decimal) (h : Stored d) :
    (readNumeral (renderDecimal d)).Exact d ↔
      (d.coefficient.toInt ≠ 0 ∨ d.exponent ≤ 0) ∧ d.exponent ≠ -2 ^ 31 := by
  rcases le_or_gt 0 d.exponent with he | he
  · rw [exact_whole_iff h he, and_iff_left (by omega)]
  · rw [exact_places_iff h he, and_iff_right (.inr he.le)]

/-- `0.1` is written as `0.1`. -/
theorem renderDecimal_exact_tenth :
    (readNumeral (renderDecimal ⟨Big.ofNat 1, -1, false⟩)).Exact ⟨Big.ofNat 1, -1, false⟩ :=
  (renderDecimal_exact_iff ⟨Big.ofNat 1, -1, false⟩ ⟨by decide, by decide⟩).mpr
    ⟨.inr (by decide), by decide⟩

/-- A zero with the exponent `1` is written as `00`. -/
theorem renderDecimal_zero_scaled : Produced ⟨Big.ofNat 0, 1, false⟩ ∧
    renderDecimal ⟨Big.ofNat 0, 1, false⟩ = [48, 48] ∧
    ¬(readNumeral (renderDecimal ⟨Big.ofNat 0, 1, false⟩)).Exact ⟨Big.ofNat 0, 1, false⟩ := by
  refine ⟨@Produced.literal _ _ 1 _ (by decide) (by decide) (constant_decimal _ _), rfl, ?_⟩
  intro hexact
  rcases hexact.leading with h | h
  · cases h
  · exact h.2 rfl

end Panackelty.Vm
