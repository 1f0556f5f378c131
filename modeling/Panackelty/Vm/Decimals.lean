import Panackelty.Vm.Rationals
import Panackelty.Vm.BuiltinsNumeric
import Mathlib.Data.Sign.Basic

/-!
# Decimals as rational numbers

A decimal stands for `coefficient * 10 ^ exponent`; the exponent is an `int` of C.

* `decimalCompare_eq_sign`: the comparison of digits is the comparison of the rational numbers.
* `decimalDivide_spec`: a quotient is returned if it has a finite expansion, in shortest form.
* `decimal_exact_iff_exponentsFit`: the arithmetic is exact as long as the exponents stay in the
  range of an `int`. -/

namespace Panackelty.Vm

open Library.Digits Decimal Big
open Nat (mod_lt pow_pos zero_add)

variable {a b d : Decimal} {m : ℕ} {q : ℚ} {e : ℤ}

/-- The rational number that a decimal stands for. -/
def Decimal.denote (d : Decimal) : ℚ := d.coefficient.toInt * 10 ^ d.exponent

theorem pow_ten_ne_zero (e : ℤ) : (10 : ℚ) ^ e ≠ 0 := zpow_ne_zero e (by norm_num)

theorem pow_ten_pos (e : ℤ) : (0 : ℚ) < 10 ^ e := zpow_pos (by norm_num) e

/-! ## Digits of a coefficient -/

theorem topDigits_eq_log : ∀ {fuel top : ℕ}, top < 10 ^ (fuel + 1) →
    topDigits fuel top = Nat.log 10 top
  | 0, top, h => (Nat.log_of_lt h).symm
  | fuel + 1, top, h => by
    rw [topDigits]
    split_ifs with h10
    · have hdiv : top / 10 < 10 ^ (fuel + 1) := by
        rw [Nat.div_lt_iff_lt_mul (by decide)]
        exact h
      rw [topDigits_eq_log hdiv, ← Nat.log_of_one_lt_of_le (by decide) h10]
    · exact (Nat.log_of_lt (by omega)).symm

variable {v : PnBigInt}

theorem limb_eq (hv : v.Normal) (k : ℕ) : v.limbs.getD k 0 = v.magnitude / base ^ k % base := by
  rw [← hv.canonical.digits_ofDigits one_lt_base]
  exact Nat.getD_digits _ _ (by decide)

theorem magnitude_lt (hv : v.Normal) : v.magnitude < base ^ v.limbs.length :=
  Nat.ofDigits_lt_base_pow_length one_lt_base hv.canonical.lt

theorem coefficientDigits_bounds (hv : v.Normal) (hs : v.sign ≠ 0) :
    0 < coefficientDigits v ∧ 10 ^ (coefficientDigits v - 1) ≤ v.magnitude ∧
      v.magnitude < 10 ^ coefficientDigits v := by
  have hne : v.limbs ≠ [] := fun h => hs (hv.sign_eq_zero_iff.mpr h)
  have hlen : v.limbs.length - 1 + 1 = v.limbs.length :=
    Nat.sub_add_cancel (List.length_pos_of_ne_nil hne)
  have hlast : v.limbs.getLastD 0 = v.magnitude / base ^ (v.limbs.length - 1) := by
    rw [List.getLastD_eq_getLast?, List.getLast?_eq_getElem?, ← List.getD_eq_getElem?_getD,
      limb_eq hv]
    refine Nat.mod_eq_of_lt ?_
    rw [Nat.div_lt_iff_lt_mul (pow_pos (by decide)), ← pow_succ', hlen]
    exact magnitude_lt hv
  have htop : v.limbs.getLastD 0 ≠ 0 := by
    rw [hlast]
    have hle := hv.canonical.pow_le_ofDigits one_lt_base hne
    exact (Nat.div_pos hle (pow_pos (by decide))).ne'
  have hlt : v.limbs.getLastD 0 < 10 ^ (10 + 1) := by
    rw [List.getLastD_eq_getLast?, List.getLast?_eq_getElem?, ← List.getD_eq_getElem?_getD,
      limb_eq hv]
    exact (mod_lt _ (by decide)).trans (by decide)
  have hpow : base ^ (v.limbs.length - 1) = 10 ^ ((v.limbs.length - 1) * 9) := by
    rw [mul_comm, pow_mul]
    rfl
  rw [coefficientDigits, if_neg hne, topDigits_eq_log hlt]
  refine ⟨by omega, ?_, ?_⟩
  · have hle := Nat.pow_log_le_self 10 htop
    rw [hlast, Nat.le_div_iff_mul_le (pow_pos (by decide)), hpow, ← pow_add, ← hpow,
      ← hlast] at hle
    refine le_trans (Nat.pow_le_pow_right (by decide) ?_) hle
    omega
  · have hlt := Nat.lt_pow_succ_log_self (b := 10) (by decide) (v.limbs.getLastD 0)
    nth_rewrite 1 [hlast] at hlt
    rw [Nat.div_lt_iff_lt_mul (pow_pos (by decide)), hpow, ← pow_add] at hlt
    refine lt_of_lt_of_le hlt (Nat.pow_le_pow_right (by decide) ?_)
    omega

/-- A digit is read off the magnitude; positions past the last digit read zero. -/
theorem coefficientDigit_eq (hv : v.Normal) {digits count pos : ℕ}
    (hd : digits ≤ count) (hp : pos < count) : coefficientDigit v digits pos =
      v.magnitude * 10 ^ (count - digits) / 10 ^ (count - pos - 1) % 10 := by
  unfold coefficientDigit
  split_ifs with h
  · -- the padding is a multiple of the next power of ten
    have hsplit : count - digits = (count - pos - 1) + 1 + (pos - digits) := by omega
    have hten : v.magnitude * 10 ^ (count - digits) =
        10 ^ (count - pos - 1) * (10 * (v.magnitude * 10 ^ (pos - digits))) := by
      rw [hsplit, pow_add, pow_succ]
      ring
    rw [hten, Nat.mul_div_cancel_left _ (pow_pos (by decide)), Nat.mul_mod_right]
  · have hsplit : count - pos - 1 = (count - digits) + (digits - pos - 1) := by omega
    rw [hsplit, pow_add, mul_comm (10 ^ (count - digits)),
      Nat.mul_div_mul_right _ _ (pow_pos (by decide))]
    simp only [limb_eq hv]
    generalize digits - pos - 1 = offset
    have hbase : base = 10 ^ (offset % 9) * 10 ^ (9 - offset % 9) := by
      rw [← pow_add, Nat.add_sub_cancel' (mod_lt offset (by decide)).le]
      rfl
    have hpow : base ^ (offset / 9) = 10 ^ (9 * (offset / 9)) := by
      rw [pow_mul]
      rfl
    have hten : 10 ∣ 10 ^ (9 - offset % 9) :=
      dvd_pow_self 10 (Nat.sub_ne_zero_of_lt (mod_lt offset (by decide)))
    nth_rewrite 2 [hbase]
    rw [Nat.mod_mul_right_div_self, Nat.mod_mod_of_dvd _ hten, Nat.div_div_eq_div_mul, hpow,
      ← pow_add, Nat.div_add_mod]

/-- The quotients by one power of ten less decide the order, or agree. -/
theorem lt_of_div_lt {n c : ℕ} (h : m / c < n / c) : m < n := by
  by_contra hle
  exact absurd (Nat.div_le_div_right (not_lt.mp hle)) (not_le.mpr h)

/-- The digit loop compares the padded magnitudes, whose digits above `position` agree. -/
theorem compareDigits_eq {left right : PnBigInt} (hl : left.Normal) (hr : right.Normal)
    {leftDigits rightDigits total n : ℕ} (hld : leftDigits ≤ total) (hrd : rightDigits ≤ total)
    (hm : m = left.magnitude * 10 ^ (total - leftDigits))
    (hn : n = right.magnitude * 10 ^ (total - rightDigits)) :
    ∀ {count pos : ℕ}, pos + count = total → m / 10 ^ count = n / 10 ^ count →
      compareDigits left right leftDigits rightDigits count pos =
        ((m : ℤ) - n).sign * left.sign
  | 0, pos, _, heq => by
    have hmn : m = n := by simpa using heq
    simp [compareDigits, hmn]
  | count + 1, pos, hpos, heq => by
    have hcnt : total - pos - 1 = count := by omega
    have hdl := @coefficientDigit_eq left hl leftDigits total pos hld (by omega)
    have hdr := @coefficientDigit_eq right hr rightDigits total pos hrd (by omega)
    rw [← hm, hcnt] at hdl
    rw [← hn, hcnt] at hdr
    -- a quotient is ten times the one above it and the digit
    have hmq := Nat.div_add_mod (m / 10 ^ count) 10
    have hnq := Nat.div_add_mod (n / 10 ^ count) 10
    rw [Nat.div_div_eq_div_mul, ← pow_succ, ← hdl] at hmq
    rw [Nat.div_div_eq_div_mul, ← pow_succ, ← hdr] at hnq
    rw [compareDigits]
    split_ifs with hne hlt
    · have : m < n := lt_of_div_lt (c := 10 ^ count) (by omega)
      rw [Int.sign_eq_neg_one_of_neg (by omega)]
    · have : n < m := lt_of_div_lt (c := 10 ^ count) (by omega)
      rw [Int.sign_eq_one_of_pos (by omega)]
    · exact compareDigits_eq hl hr hld hrd hm hn (by omega) (by omega)

/-! ## Comparison -/

/-- The sign of a rational number, as C returns it. -/
def signOf (q : ℚ) : ℤ := SignType.sign q

theorem signOf_neg (h : q < 0) : signOf q = -1 := by
  rw [signOf, sign_neg h]
  rfl

theorem signOf_pos (h : 0 < q) : signOf q = 1 := by
  rw [signOf, sign_pos h]
  rfl

theorem signOf_int_mul_pow (n e : ℤ) : signOf (n * 10 ^ e) = n.sign := by
  rcases lt_trichotomy n 0 with h | rfl | h
  · rw [Int.sign_eq_neg_one_of_neg h]
    exact signOf_neg (mul_neg_of_neg_of_pos (by exact_mod_cast h) (pow_ten_pos e))
  · simp [signOf]
  · rw [Int.sign_eq_one_of_pos h]
    exact signOf_pos (mul_pos (by exact_mod_cast h) (pow_ten_pos e))

theorem signOf_mul_sign (q : ℚ) {s : ℤ} (hs : s = 1 ∨ s = -1) : signOf (s * q) = signOf q * s := by
  rcases hs with rfl | rfl
  · simp
  have : ((-1 : ℤ) : ℚ) * q = -q := by push_cast; ring
  rw [this, signOf, Left.sign_neg, signOf]
  simp

namespace Decimal

theorem denote_eq (d : Decimal) :
    d.denote = d.coefficient.raw.sign * (d.coefficient.raw.magnitude * 10 ^ d.exponent) := by
  rw [denote, toInt, PnBigInt.toInt]
  push_cast
  ring

theorem signOf_denote (d : Decimal) : signOf d.denote = d.coefficient.raw.sign := by
  rw [denote, signOf_int_mul_pow, sign_raw]

end Decimal

theorem lt_of_scale_lt {n : ℕ} {p q : ℕ} {f : ℤ} (hm : m < 10 ^ p) (hq : 0 < q)
    (hn : 10 ^ (q - 1) ≤ n) (h : (p : ℤ) + e < q + f) : (m : ℚ) * 10 ^ e < n * 10 ^ f := by
  have hm' : (m : ℚ) < 10 ^ (p : ℤ) := by exact_mod_cast hm
  have hn' : (10 : ℚ) ^ ((q - 1 : ℕ) : ℤ) ≤ n := by exact_mod_cast hn
  calc (m : ℚ) * 10 ^ e < 10 ^ (p : ℤ) * 10 ^ e := mul_lt_mul_of_pos_right hm' (pow_ten_pos e)
    _ = 10 ^ ((p : ℤ) + e) := (zpow_add₀ (by norm_num) _ _).symm
    _ ≤ 10 ^ (((q - 1 : ℕ) : ℤ) + f) := zpow_le_zpow_right₀ (by norm_num) (by omega)
    _ = 10 ^ ((q - 1 : ℕ) : ℤ) * 10 ^ f := zpow_add₀ (by norm_num) _ _
    _ ≤ n * 10 ^ f := mul_le_mul_of_nonneg_right hn' (pow_ten_pos f).le

theorem padded_mul_pow {p total : ℕ} (h : p ≤ total) :
    ((m * 10 ^ (total - p) : ℕ) : ℚ) * 10 ^ (p + e - total) = m * 10 ^ e := by
  push_cast
  rw [mul_assoc, ← zpow_natCast (10 : ℚ), ← zpow_add₀ (by norm_num)]
  congr 2
  omega

theorem padded_lt {p total : ℕ} (hm : m < 10 ^ p) (h : p ≤ total) :
    m * 10 ^ (total - p) < 10 ^ total := by
  calc m * 10 ^ (total - p) < 10 ^ p * 10 ^ (total - p) :=
        Nat.mul_lt_mul_of_pos_right hm (pow_pos (by decide))
    _ = 10 ^ total := by rw [← pow_add, Nat.add_sub_cancel' h]

theorem lt_of_signOf_lt {x y : ℚ} (h : signOf x < signOf y) : x < y := by
  have hcast : ∀ p q : SignType, q ≤ p → ¬ ((p : ℤ) < q) := by decide
  by_contra hle
  exact hcast _ _ (SignType.sign.monotone (not_lt.mp hle)) h

/-- Two numbers of one sign that is not zero compare by their magnitudes. -/
theorem signOf_sub {s : ℤ} (hs : s = 1 ∨ s = -1) (x y : ℚ) :
    signOf (s * x - s * y) = signOf (x - y) * s := by
  rw [← mul_sub, signOf_mul_sign _ hs]

theorem decimalCompare_eq_sign (a b : Decimal) :
    decimalCompare a b = signOf (a.denote - b.denote) := by
  have ha := a.signOf_denote
  have hb := b.signOf_denote
  have hal := a.coefficient.normal
  have hbl := b.coefficient.normal
  unfold decimalCompare
  simp only
  split_ifs with hne hlt hzero hmag hless
  · rw [← ha, ← hb] at hlt
    exact (signOf_neg (sub_neg.mpr (lt_of_signOf_lt hlt))).symm
  · have hgt := lt_of_le_of_ne (not_lt.mp hlt) (Ne.symm hne)
    rw [← ha, ← hb] at hgt
    exact (signOf_pos (sub_pos.mpr (lt_of_signOf_lt hgt))).symm
  · rw [ne_eq, not_not] at hne
    rw [a.denote_eq, b.denote_eq, ← hne, hzero]
    simp [signOf]
  all_goals
    rw [ne_eq, not_not] at hne
    have hs : a.coefficient.raw.sign = 1 ∨ a.coefficient.raw.sign = -1 := by
      rcases hal.sign_eq with ⟨_, h⟩ | ⟨_, h⟩
      · exact absurd h hzero
      · exact h
    obtain ⟨hpa, hla, hua⟩ := coefficientDigits_bounds hal hzero
    obtain ⟨hpb, hlb, hub⟩ := coefficientDigits_bounds hbl (hne ▸ hzero)
    rw [a.denote_eq, b.denote_eq, ← hne, signOf_sub hs]
  · rw [signOf_neg (sub_neg.mpr (lt_of_scale_lt hua hpb hlb hless))]
  · rw [signOf_pos (sub_pos.mpr (lt_of_scale_lt hub hpa hla (by omega)))]
  · have hle := Nat.le_max_left (coefficientDigits a.coefficient.raw)
      (coefficientDigits b.coefficient.raw)
    have hre := Nat.le_max_right (coefficientDigits a.coefficient.raw)
      (coefficientDigits b.coefficient.raw)
    rw [ne_eq, not_not] at hmag
    generalize max (coefficientDigits a.coefficient.raw) (coefficientDigits b.coefficient.raw) =
      total at hle hre
    have hpada := padded_mul_pow (m := a.coefficient.raw.magnitude) (e := a.exponent) hle
    have hpadb := padded_mul_pow (m := b.coefficient.raw.magnitude) (e := b.exponent) hre
    rw [compareDigits_eq hal hbl hle hre rfl rfl (Nat.zero_add _), ← hpada, ← hpadb, hmag,
      ← sub_mul]
    · rw [← signOf_int_mul_pow _ (coefficientDigits b.coefficient.raw + b.exponent - total)]
      push_cast
      rfl
    · rw [Nat.div_eq_of_lt (padded_lt hua hle), Nat.div_eq_of_lt (padded_lt hub hre)]

theorem decimalCompare_lt_zero_iff : decimalCompare a b < 0 ↔ a.denote < b.denote := by
  rw [decimalCompare_eq_sign]
  rcases lt_trichotomy a.denote b.denote with h | h | h
  · simp [signOf_neg (sub_neg.mpr h), h]
  · simp [h, signOf]
  · simp [signOf_pos (sub_pos.mpr h), h.le]

theorem zero_lt_decimalCompare_iff : 0 < decimalCompare a b ↔ b.denote < a.denote := by
  rw [decimalCompare_eq_sign]
  rcases lt_trichotomy a.denote b.denote with h | h | h
  · simp [signOf_neg (sub_neg.mpr h), h.le]
  · simp [h, signOf]
  · simp [signOf_pos (sub_pos.mpr h), h]

theorem decimalCompare_eq_zero_iff : decimalCompare a b = 0 ↔ a.denote = b.denote := by
  rw [← not_iff_not, ← ne_eq, ← ne_eq, ne_iff_lt_or_gt, ne_iff_lt_or_gt, decimalCompare_lt_zero_iff,
    zero_lt_decimalCompare_iff]

theorem Decimal.valueEqual_iff : valueEqual (.dec a) (.dec b) = true ↔ a.denote = b.denote := by
  rw [valueEqual, beq_iff_eq, decimalCompare_eq_zero_iff]

@[simp] theorem Big.toInt_pow10 (a : Big) (power : ℕ) :
    (a.pow10 power).toInt = a.toInt * 10 ^ power :=
  (pnBigPow10_spec power a.normal).2

theorem Decimal.denote_trailing (d : Decimal) (zeros : ℕ) (negativeZero : Bool) :
    (mk (d.coefficient.pow10 zeros) (d.exponent - zeros) negativeZero).denote = d.denote := by
  rw [denote, denote, toInt_pow10, zpow_sub₀ (by norm_num), zpow_natCast]
  push_cast
  field_simp

/-- `decimal_compare` is the sign of the rational difference; hence `==` and the orderings on `Dec`
values are those of the numbers, whatever trailing zeros the operands carry. -/
theorem decimal_comparison_exact :
    (∀ a b : Decimal, decimalCompare a b = signOf (a.denote - b.denote)) ∧
    (∀ a b : Decimal, (valueEqual (.dec a) (.dec b) = true ↔ a.denote = b.denote) ∧
      Answers 5 (.dec a) (.dec b) (a.denote = b.denote) ∧
      Answers 6 (.dec a) (.dec b) (a.denote ≠ b.denote) ∧
      Answers 7 (.dec a) (.dec b) (a.denote < b.denote) ∧
      Answers 8 (.dec a) (.dec b) (a.denote ≤ b.denote) ∧
      Answers 9 (.dec a) (.dec b) (a.denote > b.denote) ∧
      Answers 10 (.dec a) (.dec b) (a.denote ≥ b.denote)) ∧
    ∀ (d : Decimal) (zeros : ℕ) (negativeZero : Bool),
      decimalCompare d ⟨d.coefficient.pow10 zeros, d.exponent - zeros, negativeZero⟩ = 0 := by
  refine ⟨decimalCompare_eq_sign, fun a b => ?_, fun d zeros negativeZero =>
    decimalCompare_eq_zero_iff.mpr (d.denote_trailing zeros negativeZero).symm⟩
  obtain ⟨h5, h6⟩ := answers_equal (a := .dec a) rfl (.dec b)
  obtain ⟨h7, h8, h9, h10⟩ := answers_order (a := .dec a) (b := .dec b) rfl rfl
  refine ⟨valueEqual_iff, h5.congr valueEqual_iff,
    h6.congr (not_congr valueEqual_iff), h7.congr decimalCompare_lt_zero_iff, h8.congr ?_,
    h9.congr zero_lt_decimalCompare_iff, h10.congr ?_⟩
  · rw [← not_lt, zero_lt_decimalCompare_iff, not_lt]
  · rw [← not_lt, decimalCompare_lt_zero_iff, not_lt]

/-! ## Values that operations produce -/

/-- The range of C's `int`. -/
def InInt (n : ℤ) : Prop := -2 ^ 31 ≤ n ∧ n < 2 ^ 31

instance (n : ℤ) : Decidable (InInt n) := inferInstanceAs (Decidable (_ ∧ _))

theorem inInt_wrapInt (n : ℤ) : InInt (wrapInt n) := by
  unfold InInt wrapInt
  omega

theorem wrapInt_eq_iff {n : ℤ} : wrapInt n = n ↔ InInt n := by
  unfold InInt wrapInt
  omega

/-- The decimals that literals, unary minus, the binary operators and `dec` produce.  The exponent
of a literal is limited by the decoder. -/
inductive Produced : Decimal → Prop
  | literal {negative : Bool} {number : Big} {exponent : ℤ} {d : Decimal} :
      -4096 ≤ exponent → exponent ≤ 4096 →
      constantValue (.decimal negative number exponent) = .dec d → Produced d
  | negate {code : ℕ} {a d : Decimal} : Produced a →
      unaryValue code (.dec a) = .ok (.dec d) → Produced d
  | binary {op : ℕ} {a b d : Decimal} : Produced a → Produced b →
      binaryValueClassified op (.dec a) (.dec b) = .ok (.dec d) → Produced d
  | convert {r : Ratio} {d : Decimal} : decConversion (.rat r) = .ok (.dec d) → Produced d

/-- What every stored decimal keeps: an exponent of type `int`, and a negative zero that is zero. -/
structure Stored (d : Decimal) : Prop where
  exponent : InInt d.exponent
  negativeZero : d.negativeZero = true → d.coefficient.toInt = 0

/-! ## Division -/

theorem headD_limbs_mod (num : Big) : num.raw.limbs.headD 0 % 10 = 0 ↔ (10 : ℤ) ∣ num.toInt := by
  have hmag : num.raw.limbs.headD 0 % 10 = num.toInt.natAbs % 10 := by
    rw [Big.toInt, num.normal.natAbs_toInt, PnBigInt.magnitude]
    rcases num.raw.limbs with _ | ⟨limb, limbs⟩
    · rfl
    · rw [List.headD_cons, Nat.ofDigits_cons, base]
      omega
  rw [hmag]
  omega

theorem toInt_divSmall_ten {num : Big} (h : (10 : ℤ) ∣ num.toInt) :
    (num.divSmall 10 (by decide)).1.toInt * 10 = num.toInt := by
  have hspec := (pnBigDivSmall_spec num.normal (show 0 < 10 by decide) (by decide)).2.1
  have hdiv : (num.divSmall 10 (by decide)).1.toInt = num.toInt.tdiv 10 := hspec
  rw [hdiv, Int.tdiv_mul_cancel h]

/-- The shortest form that division returns of `num * 10 ^ exponent`. -/
def shortestScale (num : Big) (exponent : ℤ) : Big × ℤ :=
  if num.isZero then (num, 0) else stripZeros (-exponent).toNat num exponent

/-- What the shortest form keeps and what it promises. -/
structure ShortestOf (num : ℤ) (exponent : ℤ) (out : Big × ℤ) : Prop where
  denote : (out.1.toInt : ℚ) * 10 ^ out.2 = num * 10 ^ exponent
  inInt : InInt exponent → InInt out.2
  zero : out.1.toInt = 0 → out.2 = 0
  scale : out.2 < 0 → ¬ (10 : ℤ) ∣ out.1.toInt

theorem stripZeros_spec : ∀ (fuel : ℕ) {num : Big} {expo : ℤ}, num.toInt ≠ 0 →
    -expo ≤ fuel → ShortestOf num.toInt expo (stripZeros fuel num expo)
  | 0, num, expo, hne, hfuel =>
    ⟨rfl, id, fun h => absurd h hne,
      fun h => absurd (show expo < 0 from h) (by push_cast at hfuel; omega)⟩
  | fuel + 1, num, expo, hne, hfuel => by
    rw [stripZeros]
    split_ifs with hstep
    · have hten := toInt_divSmall_ten ((headD_limbs_mod num).mp hstep.2)
      have hne' : (num.divSmall 10 (by decide)).1.toInt ≠ 0 :=
        fun h0 => hne (by rw [← hten, h0]; rfl)
      have ih := @stripZeros_spec fuel _ (expo + 1) hne' (by push_cast at hfuel; omega)
      refine ⟨?_, fun h => ih.inInt ⟨by have := h.1; omega, by have := hstep.1; omega⟩, ih.zero,
        ih.scale⟩
      rw [ih.denote, zpow_add_one₀ (by norm_num), ← hten]
      push_cast
      ring
    · exact ⟨rfl, id, fun h => absurd h hne, fun h hdvd =>
        hstep ⟨h, (headD_limbs_mod num).mpr hdvd⟩⟩

theorem shortestScale_spec (num : Big) (expo : ℤ) :
    ShortestOf num.toInt expo (shortestScale num expo) := by
  unfold shortestScale
  split_ifs with hz
  · have h0 := isZero_iff.mp hz
    exact ⟨by simp [h0], fun _ => (by decide : InInt 0), fun _ => rfl,
      fun h => absurd h (lt_irrefl _)⟩
  · exact stripZeros_spec _ (fun h0 => hz (isZero_iff.mpr h0)) (Int.self_le_toNat _)

theorem two_le_base : 2 ≤ base := by decide

theorem five_le_base : 5 ≤ base := by decide

/-- The numerator over `10 ^ max twos fives`. -/
def scaledNumerator (num : Big) (twos fives : ℕ) : Big :=
  mulSmallTimes (mulSmallTimes num 2 two_le_base (max twos fives - twos)) 5 five_le_base
    (max twos fives - fives)

/-- The exponent of the quotient, in `int` arithmetic. -/
def quotientExponent (a b : Decimal) (places : ℕ) : ℤ :=
  wrapInt (wrapInt (a.exponent - b.exponent) - wrapInt places)

/-- The quotient for a reduced denominator `2 ^ twos * 5 ^ fives`. -/
def quotientDecimal (a b : Decimal) (num : Big) (twos fives : ℕ) : Decimal :=
  let out := shortestScale (scaledNumerator num twos fives)
    (quotientExponent a b (max twos fives))
  ⟨out.1, out.2, false⟩

/-- The factors of the reduced denominator, as the division loop counts them. -/
def denominatorFactors (den : Big) : Option (ℕ × ℕ) :=
  countTwosFives (30 * den.raw.limbs.length + 1) den 0 0

/-- Division reduces the coefficients to lowest terms and looks for the factors of the
denominator. -/
theorem decimalDivide_spec (a : Decimal) {b : Decimal} (hb : b.coefficient.toInt ≠ 0) :
    ∃ num den : Big, num.toInt * b.coefficient.toInt = a.coefficient.toInt * den.toInt ∧
      0 < den.toInt ∧ Int.gcd num.toInt den.toInt = 1 ∧
      (denominatorFactors den = none → decimalDivide a b = .error
        (request "VM trap: non-terminating decimal division requires explicit rounding")) ∧
      ∀ twos fives, denominatorFactors den = some (twos, fives) →
        decimalDivide a b = .ok (.dec (quotientDecimal a b num twos fives)) := by
  obtain ⟨num, den, hparts, hcross, hpos, hcop⟩ := ratParts_spec a.coefficient hb
  refine ⟨num, den, hcross, hpos, hcop, ?_⟩
  have hz : ¬ b.coefficient.isZero = true := fun h => hb (isZero_iff.mp h)
  obtain ⟨gcd, hgcd, hval⟩ := bigGcd_spec a.coefficient b.coefficient
  have hgcd0 : gcd.toInt ≠ 0 := by
    rw [hval]
    exact_mod_cast (Int.gcd_pos_of_ne_zero_right _ hb).ne'
  obtain ⟨n, r, hn, _⟩ := divmod_eq_some (a := a.coefficient) hgcd0
  obtain ⟨d, r', hd, _⟩ := divmod_eq_some (a := b.coefficient) hgcd0
  simp only [ratParts, hgcd, hn, hd, ← apply_ite some, Option.some.injEq] at hparts
  simp only [decimalDivide, if_neg hz, hgcd, hn, hd, hparts]
  refine ⟨fun hnone => ?_, fun twos fives hsome => ?_⟩
  · rw [show countTwosFives _ _ _ _ = none from hnone]
  · rw [show countTwosFives _ _ _ _ = some (twos, fives) from hsome]
    rfl

theorem Big.isOne_iff {a : Big} : a.isOne = true ↔ a.toInt = 1 := by
  constructor
  · intro h
    simp only [isOne, pnBigIsOne, Bool.and_eq_true, beq_iff_eq] at h
    simp [toInt, PnBigInt.toInt, PnBigInt.magnitude, h.1, h.2]
  · intro h
    have hone : a = ofNat 1 := ext_toInt (by rw [h, toInt_ofNat]; rfl)
    rw [hone]
    rfl

variable {den : Big}

theorem toInt_divSmall {divisor : ℕ} (h : 0 < divisor ∧ divisor ≤ base)
    (hpos : 0 ≤ den.toInt) : (den.divSmall divisor h).1.toInt = den.toInt / divisor ∧
      ((den.divSmall divisor h).2 = 0 ↔ (divisor : ℤ) ∣ den.toInt) := by
  obtain ⟨_, hdiv, hrem⟩ := pnBigDivSmall_spec den.normal h.1 h.2
  refine ⟨hdiv.trans (Int.tdiv_eq_ediv_of_nonneg hpos), ?_⟩
  change (pnBigDivSmall den.raw divisor).2 = 0 ↔ _
  rw [hrem, ← den.normal.natAbs_toInt, ← Nat.dvd_iff_mod_eq_zero, ← Int.natCast_dvd]
  rfl

theorem countTwosFives_succ (hpos : 0 ≤ den.toInt) :
    ∃ half fifth : Big, half.toInt = den.toInt / 2 ∧ fifth.toInt = den.toInt / 5 ∧
      ∀ fuel twos fives, countTwosFives (fuel + 1) den twos fives =
        if den.toInt = 1 then some (twos, fives)
        else if (2 : ℤ) ∣ den.toInt then countTwosFives fuel half (twos + 1) fives
        else if (5 : ℤ) ∣ den.toInt then countTwosFives fuel fifth twos (fives + 1) else none := by
  obtain ⟨h2, h2z⟩ := @toInt_divSmall den 2 (by decide) hpos
  obtain ⟨h5, h5z⟩ := @toInt_divSmall den 5 (by decide) hpos
  refine ⟨_, _, h2, h5, fun fuel twos fives => ?_⟩
  push_cast at h2z h5z
  simp only [countTwosFives, isOne_iff, h2z, h5z]

theorem countTwosFives_complete : ∀ {fuel : ℕ} {den : Big} {i j : ℕ} (twos fives : ℕ),
    den.toInt = 2 ^ i * 5 ^ j → i + j < fuel →
    countTwosFives fuel den twos fives = some (twos + i, fives + j)
  | 0, _, _, _, _, _, _, h => absurd h (Nat.not_lt_zero _)
  | fuel + 1, den, i, j, twos, fives, hden, hfuel => by
    obtain ⟨half, fifth, h2, h5, hstep⟩ := @countTwosFives_succ den (by rw [hden]; positivity)
    rw [hstep]
    rcases i with _ | i
    · rcases j with _ | j
      · rw [if_pos (by rw [hden]; rfl)]
        rfl
      -- an odd product has a factor five
      have hodd : ¬ (2 : ℤ) ∣ den.toInt := by
        rw [hden, pow_zero, one_mul, ← even_iff_two_dvd, Int.not_even_iff_odd]
        exact (by decide : Odd (5 : ℤ)).pow
      have hfive : den.toInt = 5 ^ j * 5 := by rw [hden, pow_succ, pow_zero, one_mul]
      rw [if_neg (by omega), if_neg hodd, if_pos (Dvd.intro_left _ hfive.symm),
        countTwosFives_complete (i := 0) (j := j) twos (fives + 1) (by rw [h5]; omega) (by omega)]
      congr 2
      omega
    · have htwo : den.toInt = 2 ^ i * 5 ^ j * 2 := by rw [hden, pow_succ]; ring
      rw [if_neg (by omega), if_pos (Dvd.intro_left _ htwo.symm),
        countTwosFives_complete (i := i) (j := j) (twos + 1) fives (by rw [h2]; omega) (by omega)]
      congr 2
      omega

theorem countTwosFives_sound : ∀ {fuel : ℕ} {den : Big} {twos fives t f : ℕ}, 0 < den.toInt →
    countTwosFives fuel den twos fives = some (t, f) →
    ∃ i j, t = twos + i ∧ f = fives + j ∧ den.toInt = 2 ^ i * 5 ^ j
  | 0, _, _, _, _, _, _, h => by cases h
  | fuel + 1, den, twos, fives, t, f, hpos, h => by
    obtain ⟨half, fifth, h2, h5, hstep⟩ := countTwosFives_succ hpos.le
    rw [hstep] at h
    split_ifs at h with hone htwo hfive
    · cases h
      exact ⟨0, 0, rfl, rfl, by simp [hone]⟩
    · obtain ⟨i, j, rfl, rfl, hval⟩ := countTwosFives_sound (by rw [h2]; omega) h
      refine ⟨i + 1, j, by omega, rfl, ?_⟩
      rw [← Int.ediv_mul_cancel htwo, ← h2, hval, pow_succ]
      ring
    · obtain ⟨i, j, rfl, rfl, hval⟩ := countTwosFives_sound (by rw [h5]; omega) h
      refine ⟨i, j + 1, rfl, by omega, ?_⟩
      rw [← Int.ediv_mul_cancel hfive, ← h5, hval, pow_succ]
      ring

/-- The loop decides whether the denominator is a product of twos and fives. -/
theorem denominatorFactors_eq_some_iff (hpos : 0 < den.toInt) {twos fives : ℕ} :
    denominatorFactors den = some (twos, fives) ↔ den.toInt = 2 ^ twos * 5 ^ fives := by
  constructor
  · intro h
    obtain ⟨i, j, rfl, rfl, hval⟩ := countTwosFives_sound hpos h
    rw [hval, zero_add, zero_add]
  intro h
  have hfuel : twos + fives < 30 * den.raw.limbs.length + 1 := by
    have hmag : den.raw.magnitude = 2 ^ twos * 5 ^ fives := by
      rw [← den.normal.natAbs_toInt, ← toInt, h]
      norm_num [Int.natAbs_mul, Int.natAbs_pow]
    have hlt := magnitude_lt den.normal
    rw [hmag] at hlt
    have hle : 2 ^ (twos + fives) ≤ 2 ^ twos * 5 ^ fives := by
      rw [pow_add]
      exact Nat.mul_le_mul_left _ (Nat.pow_le_pow_left (by decide) _)
    have hbase : base ^ den.raw.limbs.length ≤ 2 ^ (30 * den.raw.limbs.length) := by
      rw [pow_mul]
      exact Nat.pow_le_pow_left (by decide) _
    have := (Nat.pow_lt_pow_iff_right (by decide : 1 < 2)).mp (hle.trans_lt (hlt.trans_le hbase))
    omega
  have hcnt := countTwosFives_complete 0 0 h hfuel
  rwa [zero_add, zero_add] at hcnt

theorem toInt_mulSmallTimes {factor : ℕ} (h : factor ≤ base) : ∀ (times : ℕ) (num : Big),
    (mulSmallTimes num factor h times).toInt = num.toInt * factor ^ times
  | 0, num => by simp [mulSmallTimes]
  | times + 1, num => by
    have hmul : (num.mulSmall factor h).toInt = num.toInt * factor :=
      toInt_pnBigMulSmall num.normal h
    rw [mulSmallTimes, toInt_mulSmallTimes h times, hmul, pow_succ]
    ring

/-- The scaled numerator writes the fraction with `max twos fives` digits. -/
theorem scaledNumerator_div (num : Big) (twos fives : ℕ) :
    ((scaledNumerator num twos fives).toInt : ℚ) / 10 ^ max twos fives =
      num.toInt / (2 ^ twos * 5 ^ fives) := by
  have h2 : (2 : ℚ) ^ max twos fives = 2 ^ (max twos fives - twos) * 2 ^ twos := by
    rw [← pow_add, Nat.sub_add_cancel (Nat.le_max_left _ _)]
  have h5 : (5 : ℚ) ^ max twos fives = 5 ^ (max twos fives - fives) * 5 ^ fives := by
    rw [← pow_add, Nat.sub_add_cancel (Nat.le_max_right _ _)]
  have h10 : (10 : ℚ) ^ max twos fives = 2 ^ max twos fives * 5 ^ max twos fives := by
    rw [← mul_pow]
    norm_num
  rw [scaledNumerator, toInt_mulSmallTimes, toInt_mulSmallTimes, h10, h2, h5]
  push_cast
  field_simp

/-- The number has a finite decimal expansion. -/
def FiniteExpansion (q : ℚ) : Prop := ∃ (n : ℤ) (k : ℕ), q = n / 10 ^ k

theorem FiniteExpansion.mul_pow (h : FiniteExpansion q) (e : ℤ) : FiniteExpansion (q * 10 ^ e) := by
  obtain ⟨n, k, rfl⟩ := h
  refine ⟨n * 10 ^ e.toNat, k + (-e).toNat, ?_⟩
  have he : (10 : ℚ) ^ e = 10 ^ (e.toNat : ℤ) / 10 ^ ((-e).toNat : ℤ) := by
    rw [← zpow_sub₀ (by norm_num), Int.toNat_sub_toNat_neg]
  rw [he, zpow_natCast, zpow_natCast, pow_add]
  push_cast
  field_simp

theorem finiteExpansion_mul_pow_iff (e : ℤ) : FiniteExpansion (q * 10 ^ e) ↔ FiniteExpansion q := by
  refine ⟨fun h => ?_, fun h => h.mul_pow e⟩
  have hback := h.mul_pow (-e)
  rwa [mul_assoc, ← zpow_add₀ (by norm_num), add_neg_cancel, zpow_zero, mul_one] at hback

/-- A reduced fraction has a finite expansion when its denominator divides a power of ten. -/
theorem finiteExpansion_div_iff {num den : ℤ} (hpos : 0 < den) (hcop : Int.gcd num den = 1) :
    FiniteExpansion (num / den) ↔ ∃ i j : ℕ, den = 2 ^ i * 5 ^ j := by
  have hden : (den : ℚ) ≠ 0 := by exact_mod_cast hpos.ne'
  constructor
  · rintro ⟨n, k, h⟩
    rw [div_eq_div_iff hden (by positivity)] at h
    have hdvd : den ∣ 10 ^ k := by
      refine (Int.isCoprime_iff_gcd_eq_one.mpr hcop).symm.dvd_of_dvd_mul_left (Dvd.intro_left n ?_)
      exact_mod_cast h.symm
    obtain ⟨m, rfl⟩ := Int.eq_ofNat_of_zero_le hpos.le
    have hnat : m ∣ 2 ^ k * 5 ^ k := by
      rw [← mul_pow]
      exact_mod_cast hdvd
    obtain ⟨y, z, hy, hz, rfl⟩ := Nat.dvd_mul.mp hnat
    obtain ⟨i, _, rfl⟩ := (Nat.dvd_prime_pow Nat.prime_two).mp hy
    obtain ⟨j, _, rfl⟩ := (Nat.dvd_prime_pow Nat.prime_five).mp hz
    exact ⟨i, j, by push_cast; rfl⟩
  · rintro ⟨i, j, rfl⟩
    have hten : (10 : ℚ) ^ (i + j) = 2 ^ i * 5 ^ j * (2 ^ j * 5 ^ i) := by
      rw [show (10 : ℚ) = 2 * 5 by norm_num, mul_pow, pow_add, pow_add]
      ring
    refine ⟨num * (2 ^ j * 5 ^ i), i + j, ?_⟩
    rw [hten]
    push_cast
    field_simp

/-- A decimal with no more fractional digits than its number needs. -/
structure ShortestScale (d : Decimal) : Prop where
  zero : d.coefficient.toInt = 0 → d.exponent = 0
  trailing : d.exponent < 0 → ¬ (10 : ℤ) ∣ d.coefficient.toInt
  least : ∀ (n : ℤ) (k : ℕ), d.denote = n / 10 ^ k → -d.exponent ≤ k

theorem ShortestOf.shortestScale {num expo : ℤ} {out : Big × ℤ}
    (h : ShortestOf num expo out) (negativeZero : Bool) :
    ShortestScale ⟨out.1, out.2, negativeZero⟩ := by
  refine ⟨h.zero, h.scale, fun n k hden => ?_⟩
  by_contra hlt
  rw [not_le] at hlt
  simp only at hlt
  refine h.scale (by omega) (Dvd.intro_left (n * 10 ^ (-out.2 - k - 1).toNat) ?_)
  have hpow : (10 : ℚ) ^ out.2 * (10 ^ k * (10 ^ (-out.2 - k - 1).toNat * 10)) = 1 := by
    rw [← zpow_natCast, ← zpow_natCast, ← zpow_add_one₀ (by norm_num), ← zpow_add₀ (by norm_num),
      ← zpow_add₀ (by norm_num), Int.toNat_of_nonneg (by omega)]
    ring_nf
    simp
  rw [Decimal.denote, eq_div_iff (by positivity)] at hden
  have hcast : ((n * 10 ^ (-out.2 - k - 1).toNat * 10 : ℤ) : ℚ) = out.1.toInt := by
    push_cast
    rw [← hden, mul_assoc, mul_assoc, mul_assoc, hpow, mul_one]
  exact_mod_cast hcast

/-- The `int` sums of the division do not overflow: the difference of the exponents, and that less
the places that the reduced denominator `2 ^ twos * 5 ^ fives` asks for. -/
def DivisionInRange (a b : Decimal) : Prop :=
  InInt (a.exponent - b.exponent) ∧ ∀ twos fives : ℕ,
    (((a.coefficient.toInt : ℚ) / b.coefficient.toInt).den : ℤ) = 2 ^ twos * 5 ^ fives →
      InInt (a.exponent - b.exponent - max twos fives)

theorem quotientExponent_eq {places : ℕ} (h : InInt (a.exponent - b.exponent - places)) :
    quotientExponent a b places = a.exponent - b.exponent - places := by
  unfold InInt at h
  unfold quotientExponent wrapInt
  omega

theorem quotientDecimal_denote {num : Big} {twos fives : ℕ}
    (h : InInt (a.exponent - b.exponent - max twos fives)) :
    (quotientDecimal a b num twos fives).denote =
      num.toInt / (2 ^ twos * 5 ^ fives) * 10 ^ (a.exponent - b.exponent) := by
  have hshort := (shortestScale_spec (scaledNumerator num twos fives)
    (quotientExponent a b (max twos fives))).denote
  rw [denote, quotientDecimal, hshort,
    quotientExponent_eq h, ← scaledNumerator_div, zpow_sub₀ (by norm_num), zpow_natCast]
  ring

theorem denote_div_denote {num den : ℤ} (hb : b.coefficient.toInt ≠ 0)
    (hden : 0 < den) (hcross : num * b.coefficient.toInt = a.coefficient.toInt * den) :
    a.denote / b.denote = num / den * 10 ^ (a.exponent - b.exponent) ∧
      (a.coefficient.toInt : ℚ) / b.coefficient.toInt = num / den := by
  have hb' : (b.coefficient.toInt : ℚ) ≠ 0 := by exact_mod_cast hb
  have hd' : (den : ℚ) ≠ 0 := by exact_mod_cast hden.ne'
  have hq : (a.coefficient.toInt : ℚ) / b.coefficient.toInt = num / den := by
    rw [div_eq_div_iff hb' hd']
    exact_mod_cast hcross.symm
  refine ⟨?_, hq⟩
  rw [denote, denote, mul_div_mul_comm, hq, zpow_sub₀ (by norm_num)]

theorem decimalDivide_exact (a : Decimal) {b : Decimal} (hb : b.coefficient.toInt ≠ 0) :
    ((∃ d, decimalDivide a b = .ok (.dec d)) ↔ FiniteExpansion (a.denote / b.denote)) ∧
      ∀ d, decimalDivide a b = .ok (.dec d) →
        ShortestScale d ∧ (DivisionInRange a b → d.denote = a.denote / b.denote) := by
  obtain ⟨num, den, hcross, hpos, hcop, hnone, hsome⟩ := decimalDivide_spec a hb
  obtain ⟨hdiv, hquot⟩ := denote_div_denote hb hpos hcross
  rw [hdiv, finiteExpansion_mul_pow_iff, finiteExpansion_div_iff hpos hcop]
  rcases hfac : denominatorFactors den with _ | ⟨twos, fives⟩
  · -- another prime factor is left
    rw [hnone hfac]
    refine ⟨⟨fun h => ?_, fun h => ?_⟩, fun d h => ?_⟩
    · obtain ⟨d, hd⟩ := h
      cases hd
    · obtain ⟨i, j, hij⟩ := h
      rw [(denominatorFactors_eq_some_iff hpos).mpr hij] at hfac
      cases hfac
    · cases h
  · have hval := (denominatorFactors_eq_some_iff hpos).mp hfac
    rw [hsome twos fives hfac]
    refine ⟨⟨fun _ => ⟨twos, fives, hval⟩, fun _ => ⟨_, rfl⟩⟩, fun d h => ?_⟩
    cases h
    refine ⟨(shortestScale_spec _ _).shortestScale false, fun hrange => ?_⟩
    have hden : (((a.coefficient.toInt : ℚ) / b.coefficient.toInt).den : ℤ) = den.toInt := by
      rw [hquot]
      exact Rat.den_div_eq_of_coprime hpos hcop
    rw [quotientDecimal_denote (hrange.2 twos fives (hden.trans hval)), hval]
    push_cast
    rfl

/-- Division of decimals, and `dec` on a reduced fraction: it succeeds exactly for a finite decimal
expansion, the result has the shortest fractional scale, and where the `int` sums stay in range it
is the exact quotient. -/
theorem decimal_division_exact :
    (∀ a b : Decimal, b.denote ≠ 0 →
      ((∃ d, binaryValueClassified 3 (.dec a) (.dec b) = .ok (.dec d)) ↔
        FiniteExpansion (a.denote / b.denote)) ∧
      ∀ d, binaryValueClassified 3 (.dec a) (.dec b) = .ok (.dec d) →
        ShortestScale d ∧ (DivisionInRange a b → d.denote = a.denote / b.denote)) ∧
    ∀ r : Ratio, ((∃ d, builtinsNumericCall .dec [.rat r] = .ok (.dec d)) ↔
        FiniteExpansion r.denote) ∧
      ∀ d, builtinsNumericCall .dec [.rat r] = .ok (.dec d) → ShortestScale d ∧
        (DivisionInRange ⟨r.numerator, 0, false⟩ ⟨r.denominator, 0, false⟩ →
          d.denote = r.denote) := by
  constructor
  · intro a b hb
    refine decimalDivide_exact a fun h0 => hb ?_
    rw [denote, h0, Int.cast_zero, zero_mul]
  intro r
  have h := decimalDivide_exact ⟨r.numerator, 0, false⟩ (b := ⟨r.denominator, 0, false⟩)
    r.positive.ne'
  have hdenote : r.denote = (mk r.numerator 0 false).denote /
      (mk r.denominator 0 false).denote := by simp [Ratio.denote, denote]
  rw [hdenote]
  exact h

/-- `1 / 8` has a finite expansion, and the quotient is exact. -/
theorem decimal_division_exact_eighth :
    ∃ d, binaryValueClassified 3 (.dec ⟨ofNat 1, 0, false⟩) (.dec ⟨ofNat 8, 0, false⟩) =
      .ok (.dec d) ∧ ShortestScale d ∧ d.denote = 1 / 8 := by
  have hb : (mk (ofNat 8) 0 false).denote ≠ 0 := by simp [denote]
  obtain ⟨hfin, hexact⟩ := decimal_division_exact.1 ⟨ofNat 1, 0, false⟩ _ hb
  obtain ⟨d, hd⟩ := hfin.mpr ⟨125, 3, by norm_num [denote]⟩
  have hrange : DivisionInRange ⟨ofNat 1, 0, false⟩ ⟨ofNat 8, 0, false⟩ := by
    refine ⟨by decide, fun twos fives h => ?_⟩
    have hval : 2 ^ twos * 5 ^ fives = 8 := by
      exact_mod_cast h.symm
    have htwos : 2 ^ twos ≤ 8 := hval ▸ Nat.le_mul_of_pos_right _ (by positivity)
    have hfives : 5 ^ fives ≤ 8 := hval ▸ Nat.le_mul_of_pos_left _ (by positivity)
    have ht : twos < 2 ^ twos := Nat.lt_pow_self (by decide)
    have hf : fives < 5 ^ fives := Nat.lt_pow_self (by decide)
    unfold InInt
    simp only
    omega
  refine ⟨d, hd, (hexact d hd).1, ((hexact d hd).2 hrange).trans ?_⟩
  norm_num [denote]

/-! ## Addition, subtraction, multiplication and remainder -/

/-- The operator returns a decimal that denotes `q`. -/
def Decimal.Returns (op : ℕ) (a b : Decimal) (q : ℚ) : Prop :=
  ∃ d, binaryValueClassified op (.dec a) (.dec b) = .ok (.dec d) ∧ d.denote = q

/-- Rounding toward zero. -/
def truncate (q : ℚ) : ℤ := if 0 ≤ q then ⌊q⌋ else ⌈q⌉

/-- The remainder of the truncated quotient. -/
def truncatedRemainder (x y : ℚ) : ℚ := x - y * truncate (x / y)

theorem truncate_div (x : ℤ) {y : ℤ} (hy : y ≠ 0) : truncate ((x : ℚ) / y) = x.tdiv y := by
  obtain ⟨heq, hlt, hsign⟩ := truncated_spec x hy
  generalize x.tdiv y = q at heq hlt hsign
  generalize x.tmod y = r at heq hlt hsign
  rw [Int.abs_eq_natAbs, Int.abs_eq_natAbs] at hlt
  have hnn : 0 ≤ x → 0 ≤ r := fun h => by
    rcases hsign with h0 | h0
    · omega
    · rwa [← Int.sign_nonneg_iff, h0, Int.sign_nonneg_iff]
  have hnonpos : x ≤ 0 → r ≤ 0 := fun h => by
    rcases hsign with h0 | h0
    · omega
    · rwa [← Int.sign_nonpos_iff, h0, Int.sign_nonpos_iff]
  unfold truncate
  split_ifs with hq
  · refine floor_div_eq heq ?_
    rcases div_nonneg_iff.mp hq with ⟨hx, hy'⟩ | ⟨hx, hy'⟩ <;> norm_cast at hx hy' <;> omega
  -- the ceiling is the floor of the opposite
  have hfloor : ⌊((-x : ℤ) : ℚ) / y⌋ = -q := by
    refine floor_div_eq (r := -r) (by rw [heq]; ring) ?_
    rcases div_neg_iff.mp (not_le.mp hq) with ⟨hx, hy'⟩ | ⟨hx, hy'⟩ <;> norm_cast at hx hy' <;>
      omega
  rw [← neg_neg ((x : ℚ) / y), Int.ceil_neg, ← neg_div, ← Int.cast_neg, hfloor, neg_neg]

/-- `+ - *` and `%` on a pair of decimals are exact. -/
structure ExactOn (a b : Decimal) : Prop where
  add : Decimal.Returns 0 a b (a.denote + b.denote)
  sub : Decimal.Returns 1 a b (a.denote - b.denote)
  mul : Decimal.Returns 2 a b (a.denote * b.denote)
  rem : b.denote ≠ 0 → Decimal.Returns 4 a b (truncatedRemainder a.denote b.denote)

/-- No `int` overflow touches a number: the sum of the exponents stays in range or the product is
zero, and the exponents are less than `2 ^ 31` apart. -/
def ExponentsFit (a b : Decimal) : Prop :=
  (InInt (a.exponent + b.exponent) ∨ a.denote * b.denote = 0) ∧
    (a.exponent - b.exponent).natAbs < 2 ^ 31

theorem mul_pow_eq_iff {n f : ℤ} : (n : ℚ) * 10 ^ e = n * 10 ^ f ↔ e = f ∨ n = 0 := by
  rw [mul_eq_mul_left_iff, Int.cast_eq_zero, zpow_right_inj₀ (by norm_num) (by norm_num)]

theorem mul_pow_eq_zero_iff {n : ℤ} : (n : ℚ) * 10 ^ e = 0 ↔ n = 0 := by
  rw [mul_eq_zero, or_iff_left (pow_ten_ne_zero _), Int.cast_eq_zero]

theorem Decimal.denote_eq_zero_iff : d.denote = 0 ↔ d.coefficient.toInt = 0 :=
  mul_pow_eq_zero_iff

theorem aligned_mul_pow (hle : e ≤ d.exponent) :
    ((d.coefficient.pow10 (d.exponent - e).toNat).toInt : ℚ) * 10 ^ e = d.denote := by
  have hsize : ((d.exponent - e).toNat : ℤ) + e = d.exponent := by omega
  rw [Big.toInt_pow10, denote, Int.cast_mul, Int.cast_pow, Int.cast_ofNat, mul_assoc,
    ← zpow_natCast, ← zpow_add₀ (by norm_num), hsize]

/-- Aligned coefficients stand for the operands, over one of their exponents. -/
theorem decimalAlign_spec {left right : Big} (h : decimalAlign a b = some (left, right, e)) :
    (left.toInt : ℚ) * 10 ^ e = a.denote ∧ (right.toInt : ℚ) * 10 ^ e = b.denote ∧
      (e = a.exponent ∨ e = b.exponent) := by
  unfold decimalAlign at h
  split_ifs at h with hlt hfit hfit <;> cases h
  · exact ⟨aligned_mul_pow le_rfl, aligned_mul_pow hlt.le, .inl rfl⟩
  · exact ⟨aligned_mul_pow (not_lt.mp hlt), aligned_mul_pow le_rfl, .inr rfl⟩

theorem binary_mul (a b : Decimal) : binaryValueClassified 2 (.dec a) (.dec b) =
    .ok (.dec ⟨a.coefficient.mul b.coefficient, wrapInt (a.exponent + b.exponent), false⟩) :=
  rfl

theorem returns_iff {op : ℕ} (h : binaryValueClassified op (.dec a) (.dec b) = .ok (.dec d)) :
    Decimal.Returns op a b q ↔ d.denote = q := by
  constructor
  · rintro ⟨d', hd', hq⟩
    cases h.symm.trans hd'
    exact hq
  · exact fun hq => ⟨d, h, hq⟩

theorem returns_mul_iff (a b : Decimal) : Decimal.Returns 2 a b (a.denote * b.denote) ↔
    InInt (a.exponent + b.exponent) ∨ a.denote * b.denote = 0 := by
  have hprod : a.denote * b.denote =
      ((a.coefficient.toInt * b.coefficient.toInt : ℤ) : ℚ) * 10 ^ (a.exponent + b.exponent) := by
    rw [denote, denote, zpow_add₀ (by norm_num)]
    push_cast
    ring
  rw [returns_iff (binary_mul a b), denote, toInt_mul, hprod, mul_pow_eq_iff,
    wrapInt_eq_iff, mul_pow_eq_zero_iff]

/-- The remainder of the aligned coefficients is that of the numbers. -/
theorem returns_rem {l r : Big} (halign : decimalAlign a b = some (l, r, e))
    (hb : b.denote ≠ 0) : Decimal.Returns 4 a b (truncatedRemainder a.denote b.denote) := by
  obtain ⟨hl, hr, -⟩ := decimalAlign_spec halign
  have hr0 : r.toInt ≠ 0 := fun h0 => hb (by rw [← hr, h0, Int.cast_zero, zero_mul])
  have hz : ¬ r.isZero = true := fun h => hr0 (isZero_iff.mp h)
  obtain ⟨q, rem, hdiv, _, hrem⟩ := divmod_eq_some (a := l) hr0
  refine ⟨⟨rem, e, false⟩, ?_, ?_⟩
  · simp [binaryValueClassified, rationalOperand, arithmeticBinary, decimalBinaryClassified, halign,
      hz, hdiv, valueDecimal]
  have hquot : a.denote / b.denote = (l.toInt : ℚ) / r.toInt := by
    rw [← hl, ← hr, mul_div_mul_right _ _ (pow_ten_ne_zero e)]
  have hmod : (rem.toInt : ℚ) = l.toInt - r.toInt * (l.toInt.tdiv r.toInt : ℤ) := by
    rw [hrem, Int.tmod_def]
    push_cast
    rfl
  rw [truncatedRemainder, hquot, truncate_div _ hr0, ← hl, ← hr, denote, hmod]
  ring

/-- `+ - *` and `%` are exact exactly when no `int` overflow touches a number. -/
theorem decimal_exact_iff_exponentsFit (a b : Decimal) : ExactOn a b ↔ ExponentsFit a b := by
  constructor
  · intro h
    refine ⟨(returns_mul_iff a b).mp h.mul, decimalAlign_isSome_iff.mp ?_⟩
    obtain ⟨d, hd, -⟩ := h.add
    by_contra hnone
    rw [Option.not_isSome_iff_eq_none] at hnone
    have hadd : decimalBinaryClassified 0 a b = .ok (.dec d) := hd
    simp [decimalBinaryClassified, hnone] at hadd
  rintro ⟨hmul, hfit⟩
  obtain ⟨⟨left, right, e⟩, halign⟩ :=
      Option.isSome_iff_exists.mp (decimalAlign_isSome_iff.mpr hfit)
  obtain ⟨hl, hr, -⟩ := decimalAlign_spec halign
  refine ⟨⟨⟨left.add right, e, false⟩, ?_, ?_⟩, ⟨⟨left.sub right, e, false⟩, ?_, ?_⟩,
    (returns_mul_iff a b).mpr hmul, returns_rem halign⟩
  · show decimalBinaryClassified 0 a b = _
    simp [decimalBinaryClassified, halign, valueDecimal]
  · rw [denote, toInt_add, ← hl, ← hr, Int.cast_add, add_mul]
  · show decimalBinaryClassified 1 a b = _
    simp [decimalBinaryClassified, halign, valueDecimal]
  · rw [denote, toInt_sub, ← hl, ← hr, Int.cast_sub, sub_mul]

/-! ## Chains of operations -/

theorem decimalDivide_stored (h : decimalDivide a b = .ok (.dec d)) : Stored d := by
  by_cases hb : b.coefficient.toInt = 0
  · rw [decimalDivide, if_pos (isZero_iff.mpr hb)] at h
    cases h
  obtain ⟨num, den, _, _, _, hnone, hsome⟩ := decimalDivide_spec a hb
  rcases hfac : denominatorFactors den with _ | ⟨twos, fives⟩
  · rw [hnone hfac] at h
    cases h
  · rw [hsome twos fives hfac] at h
    cases h
    exact ⟨(shortestScale_spec _ _).inInt (inInt_wrapInt _), nofun⟩

theorem binary_stored {op : ℕ} (ha : InInt a.exponent) (hb : InInt b.exponent)
    (h : binaryValueClassified op (.dec a) (.dec b) = .ok (.dec d)) : Stored d := by
  have hexp : ∀ {left right : Big} {expo : ℤ}, decimalAlign a b = some (left, right, expo) →
      InInt expo := fun halign => (decimalAlign_spec halign).2.2.elim (· ▸ ha) (· ▸ hb)
  have hnew : ∀ {coeff : Big} {expo : ℤ}, InInt expo →
      (.ok (valueDecimal coeff expo) : Except Trap Value) = .ok (.dec d) → Stored d := by
    intro coeff expo hexp heq
    cases heq
    exact ⟨hexp, nofun⟩
  simp only [binaryValueClassified, rationalOperand, Bool.false_eq_true, false_and, and_false,
    if_false, arithmeticBinary, decimalBinaryClassified] at h
  split_ifs at h
  · cases h
  · simp only [comparisonBinary] at h
    split_ifs at h
    · cases h
    · cases h
  · split at h
    · cases h
    · exact hnew (hexp ‹_›) h
  · split at h
    · cases h
    · exact hnew (hexp ‹_›) h
  · split at h
    · cases h
    split_ifs at h
    split at h
    · cases h
    · exact hnew (hexp ‹_›) h
  · exact hnew (inInt_wrapInt _) h
  · exact decimalDivide_stored h

/-- Every decimal of a chain of operations has an exponent of type `int`, and a negative zero is
zero. -/
theorem Produced.stored (h : Produced d) : Stored d := by
  induction h with
  | literal hlow hhigh heq =>
    cases heq
    refine ⟨⟨by simp only; omega, by simp only; omega⟩, fun hneg => ?_⟩
    rw [Bool.and_eq_true] at hneg
    exact isZero_iff.mp hneg.2
  | negate _ heq ih =>
    unfold unaryValue at heq
    split_ifs at heq
    cases heq
    exact ⟨ih.exponent, nofun⟩
  | binary _ _ heq iha ihb => exact binary_stored iha.exponent ihb.exponent heq
  | convert heq => exact decimalDivide_stored heq

theorem constant_decimal (number : Big) (expo : ℤ) :
    constantValue (.decimal false number expo) = .dec ⟨number, expo, false⟩ := rfl

theorem one_mul_one : (ofNat 1).mul (ofNat 1) = ofNat 1 :=
  ext_toInt (by simp)

/-- `0.1` squared `n` times; its exponent stays in range up to the thirty-first square. -/
theorem produced_tenth_square : ∀ n : ℕ, n ≤ 31 → Produced ⟨ofNat 1, -2 ^ n, false⟩
  | 0, _ => @Produced.literal _ _ (-1) _ (by decide) (by decide) (constant_decimal _ _)
  | n + 1, h => by
    have ih := produced_tenth_square n (by omega)
    have hle : (2 : ℤ) ^ (n + 1) ≤ 2 ^ 31 := pow_le_pow_right₀ (by decide) h
    have hpos : (0 : ℤ) < 2 ^ (n + 1) := by positivity
    have hwrap : wrapInt (-2 ^ n + -2 ^ n) = -2 ^ (n + 1) := by
      have hsum : -2 ^ n + -2 ^ n = (-2 ^ (n + 1) : ℤ) := by rw [pow_succ]; ring
      rw [hsum, wrapInt_eq_iff]
      exact ⟨neg_le_neg hle, by omega⟩
    refine @Produced.binary 2 _ _ _ ih ih ?_
    rw [binary_mul, hwrap, one_mul_one]

/-- The thirty-first square of `0.1` times itself has exponent `0`: the product is stored as `1`. -/
theorem decimal_product_overflows : Produced ⟨ofNat 1, -2 ^ 31, false⟩ ∧
    binaryValueClassified 2 (.dec ⟨ofNat 1, -2 ^ 31, false⟩)
      (.dec ⟨ofNat 1, -2 ^ 31, false⟩) = .ok (.dec ⟨ofNat 1, 0, false⟩) ∧
    ¬ ExactOn ⟨ofNat 1, -2 ^ 31, false⟩ ⟨ofNat 1, -2 ^ 31, false⟩ := by
  refine ⟨produced_tenth_square 31 le_rfl, ?_, fun hexact => ?_⟩
  · rw [binary_mul, one_mul_one]
    rfl
  rcases (returns_mul_iff _ _).mp hexact.mul with h | h
  · exact absurd h (by decide)
  · rw [mul_eq_zero, denote_eq_zero_iff] at h
    simp at h

end Panackelty.Vm
