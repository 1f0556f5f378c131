import Panackelty.Vm.BigintDiv

/-!
# `vm/bigint.c`: decimal texts and bytes

Three positional forms of one number meet here: the limbs in base `10^9`, the decimal text and the
bytes.  `pn_big_string` writes the top limb plainly and pads every other one to nine digits;
`limbsText_eq` says that the result is the decimal text of the whole number.

* `pnBigReadDigits`: `pn_big_from_digits` on characters, with its check of each of them.
* `pnBigString_eq`: the text of a normalised number is its sign and its decimal digits.
* `canonicalDecimal`: what a text of digits looks like once it has been read and written again.
* `pnBig_text_round_trip`: reading what was written, writing what was read, and reading bytes.
-/

namespace Panackelty.Vm

open Library.Digits List Nat UInt8

variable {digits : List UInt8} {v : PnBigInt}

/-! ## Reading digits -/

/-- The loop of `pn_big_from_digits`: a character that is not a digit ends it without a result. -/
def pnBigDigitLoop : PnBigInt → List UInt8 → Option PnBigInt
  | out, [] => some out
  | out, c :: digits =>
    if c < 48 ∨ 57 < c then none
    else pnBigDigitLoop (pnBigAddSmall (pnBigMulSmall out 10) (c.toNat - 48)) digits

/-- `pn_big_from_digits`. -/
def pnBigReadDigits (digits : List UInt8) (sign : ℤ) : Option PnBigInt :=
  match pnBigDigitLoop pnBigInit digits with
  | none => none
  | some out =>
    some (if out.limbs = [] then out else { out with sign := if sign < 0 then -1 else 1 })

/-- A character between `0` and `9`. -/
def IsDigit (c : UInt8) : Prop := 48 ≤ c ∧ c ≤ 57

instance : DecidablePred IsDigit := fun c => inferInstanceAs (Decidable (48 ≤ c ∧ c ≤ 57))

/-- The number of a digit. -/
def digitValue (c : UInt8) : ℕ := c.toNat - 48

theorem not_isDigit_iff {c : UInt8} : ¬IsDigit c ↔ c < 48 ∨ 57 < c := by
  unfold IsDigit
  rw [not_and_or, UInt8.not_le, UInt8.not_le]

theorem digitValue_lt {c : UInt8} (h : IsDigit c) : digitValue c < 10 := by
  have := le_iff_toNat_le.mp h.2
  unfold digitValue
  simp only [reduceToNat] at this
  omega

theorem lt_of_mem_digits (h : ∀ c ∈ digits, IsDigit c) : ∀ d ∈ digits.map digitValue, d < 10 := by
  intro d hd
  obtain ⟨c, hc, rfl⟩ := mem_map.mp hd
  exact digitValue_lt (h c hc)

/-- The character of a decimal digit. -/
def digitChar (d : ℕ) : UInt8 := ofNat (48 + d)

theorem toNat_digitChar {d : ℕ} (h : d < 10) : (digitChar d).toNat = 48 + d := by
  unfold digitChar
  rw [toNat_ofNat']
  omega

theorem isDigit_digitChar {d : ℕ} (h : d < 10) : IsDigit (digitChar d) := by
  have := toNat_digitChar h
  constructor <;> rw [le_iff_toNat_le, this] <;> simp only [reduceToNat] <;> omega

theorem digitValue_digitChar {d : ℕ} (h : d < 10) : digitValue (digitChar d) = d := by
  unfold digitValue
  rw [toNat_digitChar h]
  omega

theorem digitChar_digitValue {c : UInt8} (h : IsDigit c) : digitChar (digitValue c) = c := by
  have hlow := UInt8.le_iff_toNat_le.mp h.1
  simp only [UInt8.reduceToNat] at hlow
  unfold digitChar digitValue
  rw [Nat.add_sub_cancel' hlow, UInt8.ofNat_toNat]

theorem pnBigDigitLoop_eq : ∀ {digits : List UInt8}, (∀ c ∈ digits, IsDigit c) →
    ∀ out, pnBigDigitLoop out digits = some ((digits.map digitValue).foldl
        (fun out digit => pnBigAddSmall (pnBigMulSmall out 10) digit) out) := by
  intro digits
  induction digits with
  | nil =>
    intro _ out
    rfl
  | cons c digits ih =>
    intro h out
    have hc : ¬(c < 48 ∨ 57 < c) := fun hbad => not_isDigit_iff.mpr hbad (h c mem_cons_self)
    rw [pnBigDigitLoop, if_neg hc, ih fun c hc => h c (mem_cons_of_mem _ hc)]
    rfl

theorem pnBigReadDigits_eq (h : ∀ c ∈ digits, IsDigit c) (sign : ℤ) :
    pnBigReadDigits digits sign = some (pnBigFromDigits (digits.map digitValue) sign) := by
  unfold pnBigReadDigits
  rw [pnBigDigitLoop_eq h]
  rfl

theorem pnBigDigitLoop_eq_none (h : ∃ c ∈ digits, ¬IsDigit c) :
    ∀ out, pnBigDigitLoop out digits = none := by
  induction digits with
  | nil =>
    obtain ⟨c, hc, _⟩ := h
    simp at hc
  | cons c digits ih =>
    intro out
    rw [pnBigDigitLoop]
    split_ifs with hbad
    · rfl
    obtain ⟨d, hd, hnot⟩ := h
    rcases mem_cons.mp hd with rfl | hd
    · exact absurd (not_isDigit_iff.mp hnot) hbad
    · exact ih ⟨d, hd, hnot⟩ _

/-- One character that is not a digit makes the whole text unreadable. -/
theorem pnBigReadDigits_eq_none (h : ∃ c ∈ digits, ¬IsDigit c) (sign : ℤ) :
    pnBigReadDigits digits sign = none := by
  unfold pnBigReadDigits
  rw [pnBigDigitLoop_eq_none h]

/-! ## Writing -/

/-- The characters of digits that come least significant first. -/
def digitText (digits : List ℕ) : List UInt8 := digits.reverse.map digitChar

theorem digitText_append (low high : List ℕ) :
    digitText (low ++ high) = digitText high ++ digitText low := by
  simp [digitText]

theorem digitText_replicate_zero (k : ℕ) :
    digitText (replicate k 0) = replicate k 48 := by
  unfold digitText
  rw [reverse_replicate, map_replicate]
  rfl

theorem decimalText_of_ne_zero {n : ℕ} (h : n ≠ 0) : decimalText n = digitText (Nat.digits 10 n) :=
  if_neg h

theorem paddedText_eq (n : ℕ) : paddedText n =
      digitText (Nat.digits 10 n ++ replicate (9 - (Nat.digits 10 n).length) 0) := by
  rw [digitText_append, digitText_replicate_zero]
  by_cases h : n = 0
  · subst h
    rfl
  · rw [paddedText, length_decimalText h, decimalText_of_ne_zero h]

theorem limbsText_eq : ∀ {limbs : List ℕ}, Canonical base limbs → limbs ≠ [] →
    limbsText limbs = decimalText (Nat.ofDigits base limbs)
  | [], _, hne => absurd rfl hne
  | [top], _, _ => by rw [limbsText, Nat.ofDigits_singleton]
  | limb :: next :: limbs, hc, _ => by
    have hlimb : limb < base := hc.lt limb mem_cons_self
    have htail : Canonical base (next :: limbs) := hc.tail
    have hv : Nat.ofDigits base (next :: limbs) ≠ 0 := fun h =>
      absurd ((htail.ofDigits_eq_zero_iff one_lt_base).mp h) (by simp)
    have hlen : (digits 10 limb).length ≤ 9 := (digits_length_le_iff (by decide) limb).mpr hlimb
    rw [limbsText, limbsText_eq htail (by simp), paddedText_eq, decimalText_of_ne_zero hv,
      ← digitText_append, digits_append_zeroes_append_digits (by decide) (pos_of_ne_zero hv),
      Nat.add_sub_cancel' hlen]
    have hval : ofDigits base (limb :: next :: limbs) =
        limb + 10 ^ 9 * ofDigits base (next :: limbs) := ofDigits_cons
    rw [hval, decimalText_of_ne_zero (by positivity)]
    simp

/-- The text of a normalised number is its sign and its decimal digits. -/
theorem pnBigString_eq (hv : v.Normal) :
    pnBigString v = (if v.sign < 0 then [45] else []) ++ decimalText v.magnitude := by
  unfold pnBigString
  by_cases h0 : v.sign = 0
  · rw [if_pos h0, hv.magnitude_eq_zero_iff.mpr h0, h0]
    rfl
  · have hl : v.limbs ≠ [] := fun h => h0 (hv.sign_eq_zero_iff.mpr h)
    rw [if_neg h0, limbsText_eq hv.canonical hl]
    rfl

/-- A number that is not negative is written with exactly its decimal digits. -/
theorem length_pnBigString (hv : v.Normal) (hs : 0 ≤ v.sign) :
    (pnBigString v).length = max 1 (Nat.digits 10 v.magnitude).length := by
  rw [pnBigString_eq hv, if_neg (not_lt.mpr hs), nil_append]
  by_cases h : v.magnitude = 0
  · rw [h]
    rfl
  · rw [length_decimalText h, max_eq_right]
    exact length_pos_of_ne_nil (digits_ne_nil_iff_ne_zero.mpr h)

/-! ## Reading what was written -/

theorem isDigit_of_mem_decimalText {n : ℕ} : ∀ c ∈ decimalText n, IsDigit c := by
  intro c hc
  by_cases h : n = 0
  · subst h
    have hzero : c = 48 := by simpa [decimalText] using hc
    rw [hzero]
    decide
  · rw [decimalText_of_ne_zero h, digitText, mem_map] at hc
    obtain ⟨d, hd, rfl⟩ := hc
    exact isDigit_digitChar (Nat.digits_lt_base (by decide) (mem_reverse.mp hd))

theorem bigEndian_decimalText (n : ℕ) : bigEndian 10 ((decimalText n).map digitValue) = n := by
  by_cases h : n = 0
  · subst h
    rfl
  have hdig : (decimalText n).map digitValue = (digits 10 n).reverse := by
    rw [decimalText_of_ne_zero h, digitText, map_map]
    refine (map_congr_left fun d hd => ?_).trans (map_id _)
    exact digitValue_digitChar (digits_lt_base (by decide) (mem_reverse.mp hd))
  rw [hdig, bigEndian_reverse_digits]

/-- The digits of a text: all but a minus sign in front. -/
def textDigits (text : List UInt8) : List UInt8 := if text.head? = some 45 then text.tail else text

theorem textDigits_pnBigString (hv : v.Normal) :
    textDigits (pnBigString v) = decimalText v.magnitude := by
  rw [pnBigString_eq hv]
  split_ifs with hneg
  · rfl
  rw [nil_append, textDigits, if_neg]
  intro hhead
  have hminus : IsDigit 45 := isDigit_of_mem_decimalText 45 (mem_of_mem_head? hhead)
  exact absurd hminus (by decide)

theorem sign_mul_magnitude (hv : v.Normal) :
    (if v.sign < 0 then -1 else 1) * (v.magnitude : ℤ) = v.toInt := by
  unfold PnBigInt.toInt
  rcases hv.sign_eq with ⟨_, hs⟩ | ⟨_, hs | hs⟩
  · rw [hv.magnitude_eq_zero_iff.mpr hs]
    simp
  · rw [hs]
    rfl
  · rw [hs]
    rfl

theorem pnBigReadDigits_pnBigString (hv : v.Normal) :
    pnBigReadDigits (textDigits (pnBigString v)) v.sign = some v := by
  obtain ⟨hn, hval⟩ := pnBigFromDigits_spec (lt_of_mem_digits isDigit_of_mem_decimalText) v.sign
  rw [textDigits_pnBigString hv, pnBigReadDigits_eq isDigit_of_mem_decimalText]
  rw [bigEndian_decimalText, sign_mul_magnitude hv] at hval
  rw [hn.ext hv hval]

/-! ## Writing what was read -/

/-- The canonical form of a text of digits under a sign: leading zeros are dropped, zero is `0`
without a sign. -/
def canonicalDecimal (digits : List UInt8) (sign : ℤ) : List UInt8 :=
  if digits.dropWhile (· = 48) = [] then [48]
  else (if sign < 0 then [45] else []) ++ digits.dropWhile (· = 48)

theorem bigEndian_dropWhile (digits : List UInt8) :
    bigEndian 10 ((digits.dropWhile (· = 48)).map digitValue) =
      bigEndian 10 (digits.map digitValue) := by
  induction digits with
  | nil => rfl
  | cons c digits ih =>
    by_cases hc : c = 48
    · subst hc
      rw [dropWhile_cons_of_pos (by simp), ih]
      rfl
    · rw [dropWhile_cons_of_neg (by simpa using hc)]

theorem decimalText_bigEndian (h : ∀ c ∈ digits, IsDigit c) (hne : digits ≠ [])
    (hhead : digits.head? ≠ some 48) : bigEndian 10 (digits.map digitValue) ≠ 0 ∧
      decimalText (bigEndian 10 (digits.map digitValue)) = digits := by
  have hzero : (digits.map digitValue).head? ≠ some 0 := by
    rw [head?_map]
    intro h0
    obtain ⟨c, hc, hval⟩ := Option.map_eq_some_iff.mp h0
    refine hhead (hc.trans (congrArg some ?_))
    rw [← digitChar_digitValue (h c (mem_of_mem_head? hc)), hval]
    rfl
  have hdig := digits_bigEndian (by decide) (lt_of_mem_digits h) hzero
  have hvalue : bigEndian 10 (digits.map digitValue) ≠ 0 := by
    intro h0
    rw [h0, digits_zero] at hdig
    exact hne (map_eq_nil_iff.mp hdig.symm)
  refine ⟨hvalue, ?_⟩
  rw [decimalText_of_ne_zero hvalue, digitText, hdig, map_map]
  refine (map_congr_left fun c hc => ?_).trans (map_id _)
  exact digitChar_digitValue (h c hc)

theorem head?_dropWhile_ne (digits : List UInt8) : (digits.dropWhile (· = 48)).head? ≠ some 48 := by
  intro h
  have := head?_dropWhile_not (fun c : UInt8 => decide (c = 48)) digits
  rw [h] at this
  simp at this

theorem pnBigString_pnBigFromDigits (h : ∀ c ∈ digits, IsDigit c) (sign : ℤ) :
    pnBigString (pnBigFromDigits (digits.map digitValue) sign) = canonicalDecimal digits sign := by
  obtain ⟨hn, hval⟩ := pnBigFromDigits_spec (lt_of_mem_digits h) sign
  have hmag : (pnBigFromDigits (digits.map digitValue) sign).magnitude =
      bigEndian 10 ((digits.dropWhile (· = 48)).map digitValue) := by
    rw [bigEndian_dropWhile, ← hn.natAbs_toInt, hval]
    split_ifs <;> simp
  rw [pnBigString_eq hn, hmag, canonicalDecimal]
  by_cases hz : digits.dropWhile (· = 48) = []
  · rw [hz] at hmag
    have hs : (pnBigFromDigits (digits.map digitValue) sign).sign = 0 :=
      hn.magnitude_eq_zero_iff.mp hmag
    rw [if_pos hz, hz, hs]
    rfl
  · have hdrop : ∀ c ∈ digits.dropWhile (· = 48), IsDigit c := fun c hc =>
      h c ((dropWhile_suffix _).subset hc)
    obtain ⟨hvalue, htext⟩ := decimalText_bigEndian hdrop hz (head?_dropWhile_ne digits)
    have hs : (pnBigFromDigits (digits.map digitValue) sign).sign < 0 ↔ sign < 0 := by
      rw [bigEndian_dropWhile] at hvalue
      rw [← hn.sign_toInt, hval, Int.sign_neg_iff]
      split_ifs with hneg
      · simpa [hneg] using pos_of_ne_zero hvalue
      · simp [hneg]
    rw [if_neg hz, htext]
    simp only [hs]

/-- A normalised number is read back from its text; a text of digits is written back in canonical
form, whatever zeros lead it; bytes are read as the normalised big-endian number. -/
theorem pnBig_text_round_trip :
    (∀ v : PnBigInt, v.Normal → pnBigReadDigits (textDigits (pnBigString v)) v.sign = some v) ∧
      (∀ (digits : List UInt8) (sign : ℤ), (∀ c ∈ digits, IsDigit c) →
        ∃ v, pnBigReadDigits digits sign = some v ∧ pnBigString v = canonicalDecimal digits sign) ∧
      ∀ bytes : List UInt8, (pnBigFromBytes (bytes.map toNat)).Normal ∧
        (pnBigFromBytes (bytes.map toNat)).toInt = (bigEndian 256 (bytes.map toNat) : ℕ) := by
  refine ⟨fun v hv => pnBigReadDigits_pnBigString hv, fun digits sign h => ?_, fun bytes => ?_⟩
  · exact ⟨_, pnBigReadDigits_eq h sign, pnBigString_pnBigFromDigits h sign⟩
  have hlt : ∀ d ∈ bytes.map toNat, d < 256 := by
    intro d hd
    obtain ⟨c, _, rfl⟩ := mem_map.mp hd
    exact toNat_lt c
  exact ⟨pnBigFromBytes_normal hlt, toInt_pnBigFromBytes hlt⟩

/-- A negative number of two limbs with a padded one, and `007`. -/
theorem pnBig_text_round_trip_padded :
    pnBigReadDigits (textDigits (pnBigString ⟨-1, [7, 1]⟩)) (-1) = some ⟨-1, [7, 1]⟩ ∧
      ∃ v, pnBigReadDigits [48, 48, 55] 1 = some v ∧ pnBigString v = [55] := by
  have hnorm : (PnBigInt.mk (-1) [7, 1]).Normal :=
    ⟨⟨by decide, by decide⟩, Or.inr ⟨by decide, by decide⟩⟩
  exact ⟨pnBig_text_round_trip.1 _ hnorm,
    pnBig_text_round_trip.2.1 [48, 48, 55] 1 (by decide +kernel)⟩

end Panackelty.Vm
