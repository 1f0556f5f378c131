import Panackelty.Vm.Execute
import Mathlib.Algebra.Order.Floor.Ring
import Mathlib.Data.Rat.Floor
import Mathlib.Tactic.FieldSimp

/-!
# `vm/builtins_numeric.c`, and division of integers in the virtual machine

`pn_big_divmod` truncates.  The operator `%` moves a remainder whose dividend has the other sign by
one divisor, so that it takes the sign of the divisor; `quotient` works on `Nat`, where truncation
and the floor agree.

* `builtinsNumericCall`: the constructors and conversions.
* `truncated_spec`: the quotient and remainder of `pn_big_divmod`, as facts about integers.
* `integerRemainder_spec`, `quotient_eq`: the remainder of `%` and the quotient on `Nat`.
* `integer_division`: all three.
-/

namespace Panackelty.Vm

open Big

/-! ## Truncated division -/

/-- The quotient rounds toward zero, and the remainder has the sign of the dividend. -/
structure Truncated (a b q r : ℤ) : Prop where
  eq : a = b * q + r
  lt : |r| < |b|
  sign : r = 0 ∨ r.sign = a.sign

theorem truncated_spec (a : ℤ) {b : ℤ} (hb : b ≠ 0) : Truncated a b (a.tdiv b) (a.tmod b) := by
  refine ⟨(Int.mul_tdiv_add_tmod a b).symm, ?_, ?_⟩
  · rw [Int.abs_eq_natAbs, Int.abs_eq_natAbs, Int.natAbs_tmod]
    exact_mod_cast Nat.mod_lt _ (Int.natAbs_pos.mpr hb)
  · by_cases hdvd : b ∣ a
    · exact Or.inl (Int.tmod_eq_zero_of_dvd hdvd)
    · exact Or.inr (by rw [Int.sign_tmod, if_neg hdvd])

/-- A remainder between zero and the divisor belongs to the floor. -/
theorem floor_div_eq {x y k r : ℤ} (hx : x = y * k + r)
    (hr : (0 ≤ r ∧ r < y) ∨ (y < r ∧ r ≤ 0)) : ⌊(x : ℚ) / y⌋ = k := by
  have hy : (y : ℚ) ≠ 0 := by
    have : y ≠ 0 := by omega
    exact_mod_cast this
  have hdiv : (x : ℚ) / y = k + r / y := by
    rw [hx]
    push_cast
    field_simp
  have hfrac : 0 ≤ (r : ℚ) / y ∧ (r : ℚ) / y < 1 := by
    rcases hr with ⟨h0, hlt⟩ | ⟨hlt, h0⟩
    · have hpos : (0 : ℚ) < y := by exact_mod_cast lt_of_le_of_lt h0 hlt
      refine ⟨div_nonneg (by exact_mod_cast h0) hpos.le, ?_⟩
      rw [div_lt_one hpos]
      exact_mod_cast hlt
    · have hneg : (y : ℚ) < 0 := by exact_mod_cast lt_of_lt_of_le hlt h0
      refine ⟨div_nonneg_of_nonpos (by exact_mod_cast h0) hneg.le, ?_⟩
      rw [div_lt_one_of_neg hneg]
      exact_mod_cast hlt
  rw [Int.floor_eq_iff, hdiv]
  constructor <;> linarith

/-- The quotient of numbers that are not negative is not negative. -/
theorem Big.divmod_nonneg {a b q r : Big} (ha : 0 ≤ a.toInt) (hb : 0 ≤ b.toInt)
    (h : a.divmod b = some (q, r)) : 0 ≤ q.toInt := by
  by_cases h0 : b.toInt = 0
  · have hs : b.raw.sign = 0 := b.normal.toInt_eq_zero_iff.mp h0
    unfold divmod at h
    split at h
    · cases h
    · next hsome => simp [pnBigDivmod, hs] at hsome
  · obtain ⟨q', r', heq, hq, _⟩ := divmod_eq_some (a := a) h0
    cases heq.symm.trans h
    rw [hq]
    exact Int.tdiv_nonneg ha hb

/-! ## The builtins -/

/-- `quotient`. -/
def quotient : Value → Value → Except Trap Value
  | .nat a, .nat b =>
    if b.big.isZero then .error (fatal "VM trap: division by zero")
    else
      match h : a.big.divmod b.big with
      | none => .error outOfMemory
      | some (q, _) => .ok (.nat ⟨q, divmod_nonneg a.nonneg b.nonneg h⟩)
  | _, _ => .error (fatal "VM trap: quotient requires Nat operands")

theorem natConversion_nonneg {r : Ratio}
    (h : 0 ≤ r.numerator.raw.sign ∧ r.denominator.isOne = true) : 0 ≤ r.numerator.toInt :=
  not_lt.mp fun hneg => absurd (raw_sign_neg_iff.mpr hneg) (not_lt.mpr h.1)

/-- `nat`. -/
def natConversion : Value → Except Trap Value
  | .rat r =>
    if h : 0 ≤ r.numerator.raw.sign ∧ r.denominator.isOne = true then
      .ok (.nat ⟨r.numerator, natConversion_nonneg h⟩)
    else .error (fatal "VM trap: Rat is not an exact Nat")
  | _ => .error (fatal "VM trap: rational conversion requires Rat")

/-- `dec`. -/
def decConversion : Value → Except Trap Value
  | .rat r => decimalBinaryClassified 3 ⟨r.numerator, 0, false⟩ ⟨r.denominator, 0, false⟩
  | _ => .error (fatal "VM trap: rational conversion requires Rat")

/-- `builtins_numeric_call`. -/
def builtinsNumericCall (name : BuiltinName) (a : List Value) : Except Trap Value :=
  match name with
  | .dollarUnit => .ok .unit
  | .quotient => quotient (argument a 0) (argument a 1)
  | .nat => natConversion (argument a 0)
  | .dec => decConversion (argument a 0)
  | _ => .error (fatal "VM trap: unknown builtin")

/-! ## The remainder of `%` -/

/-- The remainder is zero or has the sign of the divisor, and it is what the floor leaves. -/
structure Floored (x y r : ℤ) : Prop where
  eq : r = x - y * ⌊(x : ℚ) / y⌋
  sign : r = 0 ∨ r.sign = y.sign

/-- A remainder between zero and the divisor is the one of the floor. -/
theorem Floored.of_between {x y k r : ℤ} (hx : x = y * k + r)
    (hr : (0 ≤ r ∧ r < y) ∨ (y < r ∧ r ≤ 0)) : Floored x y r := by
  refine ⟨?_, ?_⟩
  · rw [floor_div_eq hx hr]
    omega
  by_cases h0 : r = 0
  · exact Or.inl h0
  rcases hr with ⟨hlow, hlt⟩ | ⟨hlt, hhigh⟩
  · refine Or.inr ?_
    rw [Int.sign_eq_one_of_pos (by omega), Int.sign_eq_one_of_pos (by omega)]
  · refine Or.inr ?_
    rw [Int.sign_eq_neg_one_of_neg (by omega), Int.sign_eq_neg_one_of_neg (by omega)]

/-- Moving a truncated remainder of the wrong sign by one divisor gives the one of the floor. -/
theorem Truncated.floored {a b q r : ℤ} (h : Truncated a b q r) :
    Floored a b (if r ≠ 0 ∧ a.sign ≠ b.sign then r + b else r) := by
  have hlt := abs_lt.mp h.lt
  split_ifs with hmove
  · obtain ⟨hr, hsigns⟩ := hmove
    have hsign : r.sign = a.sign := h.sign.resolve_left hr
    have heq : a = b * (q - 1) + (r + b) := by
      rw [h.eq]
      ring
    refine Floored.of_between heq ?_
    -- the remainder and the divisor lie on different sides of zero
    rcases lt_trichotomy b 0 with hb | hb | hb
    · rw [abs_of_neg hb] at hlt
      rw [← hsign, Int.sign_eq_neg_one_of_neg hb] at hsigns
      have : 0 < r := by
        by_contra hcon
        exact hsigns (Int.sign_eq_neg_one_of_neg (by omega))
      omega
    · rw [hb, abs_zero] at hlt
      omega
    · rw [abs_of_pos hb] at hlt
      rw [← hsign, Int.sign_eq_one_of_pos hb] at hsigns
      have : r < 0 := by
        by_contra hcon
        exact hsigns (Int.sign_eq_one_of_pos (by omega))
      omega
  · refine Floored.of_between h.eq ?_
    by_cases hr : r = 0
    · subst hr
      rcases lt_trichotomy b 0 with hb | hb | hb
      · exact Or.inr ⟨hb, le_refl _⟩
      · rw [hb, abs_zero] at hlt
        omega
      · exact Or.inl ⟨le_refl _, hb⟩
    · have hsign : r.sign = b.sign := by
        rw [h.sign.resolve_left hr]
        by_contra hne
        exact hmove ⟨hr, hne⟩
      rcases lt_trichotomy b 0 with hb | hb | hb
      · rw [Int.sign_eq_neg_one_of_neg hb, Int.sign_eq_neg_one_iff_neg] at hsign
        rw [abs_of_neg hb] at hlt
        omega
      · rw [hb, abs_zero] at hlt
        omega
      · rw [Int.sign_eq_one_of_pos hb, Int.sign_eq_one_iff_pos] at hsign
        rw [abs_of_pos hb] at hlt
        omega

theorem integerRemainder_spec (a : Big) {b : Big} (hb : b.toInt ≠ 0) :
    ∃ r, integerRemainder a b = .ok r ∧ Floored a.toInt b.toInt r.toInt := by
  obtain ⟨q, r, hdiv, hq, hr⟩ := divmod_eq_some (a := a) hb
  have hzero : b.isZero = false := by
    rw [← Bool.not_eq_true, isZero_iff]
    exact hb
  have hfloor := (truncated_spec a.toInt hb).floored
  rw [← hr] at hfloor
  unfold integerRemainder
  rw [hdiv]
  simp only [hzero, Bool.false_eq_true, if_false]
  refine ⟨_, rfl, ?_⟩
  have hcond : (¬r.isZero = true ∧ a.raw.sign ≠ b.raw.sign) ↔
      (r.toInt ≠ 0 ∧ a.toInt.sign ≠ b.toInt.sign) := by
    rw [Big.isZero_iff, sign_raw, sign_raw]
  by_cases hmove : r.toInt ≠ 0 ∧ a.toInt.sign ≠ b.toInt.sign
  · rw [if_pos (hcond.mpr hmove), toInt_add]
    rwa [if_pos hmove] at hfloor
  · rw [if_neg fun h => hmove (hcond.mp h)]
    rwa [if_neg hmove] at hfloor

/-- The remainder of two numbers that are not negative is a `Nat`. -/
theorem Floored.nonneg {x y r : ℤ} (h : Floored x y r) (hy : 0 ≤ y) : 0 ≤ r := by
  rcases h.sign with h0 | hs
  · omega
  have hsign : 0 ≤ y.sign := Int.sign_nonneg_iff.mpr hy
  rw [← hs, Int.sign_nonneg_iff] at hsign
  exact hsign

theorem integerBinary_remainder (x y : Big) (isInt : Bool) : integerBinary 4 x y isInt =
    (integerRemainder x y >>= fun res =>
      if isInt then .ok (.int res) else natResult res) := rfl

/-- `%` on any mix of `Nat` and `Int`: two `Nat` give a `Nat`, any other mix an `Int`. -/
theorem remainder_value {a b : Value} {x y : Big} (ha : integerOf a = some x)
    (hb : integerOf b = some y) (h0 : y.toInt ≠ 0) :
    ∃ v r, binaryValueClassified 4 a b = .ok v ∧ integerOf v = some r ∧
      v.kind = (if a.kind = .nat ∧ b.kind = .nat then .nat else .int) ∧
      Floored x.toInt y.toInt r.toInt := by
  obtain ⟨r, hr, hfloor⟩ := integerRemainder_spec x h0
  have hint : integerBinary 4 x y true = .ok (.int r) := by
    rw [integerBinary_remainder, hr]
    rfl
  cases a with
  | nat m =>
    cases ha
    cases b with
    | nat n =>
      cases hb
      have hnn : 0 ≤ r.toInt := hfloor.nonneg n.nonneg
      have hneg : ¬r.raw.sign < 0 := by
        rw [Big.raw_sign_neg_iff, not_lt]
        exact hnn
      refine ⟨.nat ⟨r, hnn⟩, r, ?_, rfl, rfl, hfloor⟩
      show integerBinary 4 m.big n.big false = _
      rw [integerBinary_remainder, hr]
      show natResult r = _
      rw [natResult, dif_neg hneg]
    | int n =>
      cases hb
      exact ⟨_, r, hint, rfl, rfl, hfloor⟩
    | _ => cases hb
  | int m =>
    cases ha
    cases b with
    | nat n | int n =>
      cases hb
      exact ⟨_, r, hint, rfl, rfl, hfloor⟩
    | _ => cases hb
  | _ => cases ha

/-! ## The quotient on `Nat` -/

theorem quotient_eq (a b : NatBig) (h0 : b.big.toInt ≠ 0) :
    ∃ q : NatBig, quotient (.nat a) (.nat b) = .ok (.nat q) ∧
      q.big.toInt = ⌊(a.big.toInt : ℚ) / b.big.toInt⌋ := by
  obtain ⟨q, r, hdiv, hq, _⟩ := divmod_eq_some (a := a.big) h0
  have hzero : b.big.isZero = false := by
    rw [← Bool.not_eq_true, isZero_iff]
    exact h0
  have hpos : 0 < b.big.toInt := lt_of_le_of_ne b.nonneg (Ne.symm h0)
  refine ⟨⟨q, divmod_nonneg a.nonneg b.nonneg hdiv⟩, ?_, ?_⟩
  · unfold quotient
    simp only [hzero, Bool.false_eq_true, if_false]
    split
    · next hnone =>
      cases hdiv.symm.trans hnone
    · next hsome =>
      cases hdiv.symm.trans hsome
      rfl
  · have htrunc := truncated_spec a.big.toInt h0
    have hlt := (abs_lt.mp htrunc.lt).2
    rw [abs_of_pos hpos] at hlt
    rw [floor_div_eq htrunc.eq (Or.inl ⟨Int.tmod_nonneg _ a.nonneg, hlt⟩)]
    exact hq

/-- Division by a number that is not zero: `pn_big_divmod` truncates, `%` on any mix of `Nat` and
`Int` leaves what the floor of the quotient leaves, and `quotient` is that floor. -/
theorem integer_division : (∀ a b : PnBigInt, a.Normal → b.Normal → b.toInt ≠ 0 → ∃ q r,
      pnBigDivmod a b = some (q, r) ∧ q.Normal ∧ r.Normal ∧
        Truncated a.toInt b.toInt q.toInt r.toInt) ∧
      (∀ (a b : Value) (x y : Big), integerOf a = some x → integerOf b = some y → y.toInt ≠ 0 →
        ∃ v r, binaryValueClassified 4 a b = .ok v ∧ integerOf v = some r ∧
          v.kind = (if a.kind = .nat ∧ b.kind = .nat then .nat else .int) ∧
          Floored x.toInt y.toInt r.toInt) ∧
      ∀ a b : NatBig, b.big.toInt ≠ 0 → ∃ q : NatBig,
        builtinsNumericCall .quotient [.nat a, .nat b] = .ok (.nat q) ∧
          q.big.toInt = ⌊(a.big.toInt : ℚ) / b.big.toInt⌋ := by
  refine ⟨fun a b ha hb h0 => ?_, fun a b x y ha hb h0 => remainder_value ha hb h0,
    fun a b h0 => quotient_eq a b h0⟩
  obtain ⟨q, r, hdiv, hq, hr, hqv, hrv⟩ := pnBigDivmod_spec ha hb h0
  refine ⟨q, r, hdiv, hq, hr, ?_⟩
  rw [hqv, hrv]
  exact truncated_spec a.toInt h0

/-- `-7 / 2` truncates to `-3`, `7 % -2` is `-1`, and the quotient of `7` and `2` is the floor. -/
theorem integer_division_seven_two :
    (∃ q r, pnBigDivmod ⟨-1, [7]⟩ ⟨1, [2]⟩ = some (q, r) ∧ q.Normal ∧ r.Normal ∧
      Truncated (-7) 2 q.toInt r.toInt) ∧
    (∃ v r, binaryValueClassified 4 (.nat (NatBig.ofNat 7)) (.int (ofNat 2).neg) = .ok v ∧
      integerOf v = some r ∧ v.kind = .int ∧ Floored 7 (-2) r.toInt) ∧
    ∃ q : NatBig, builtinsNumericCall .quotient [.nat (NatBig.ofNat 7), .nat (NatBig.ofNat 2)] =
        .ok (.nat q) ∧ q.big.toInt = ⌊(7 : ℚ) / 2⌋ := by
  have ha : (PnBigInt.mk (-1) [7]).Normal := ⟨⟨by decide, by decide⟩, Or.inr ⟨by decide, by decide⟩⟩
  have hb : (PnBigInt.mk 1 [2]).Normal := ⟨⟨by decide, by decide⟩, Or.inr ⟨by decide, by decide⟩⟩
  refine ⟨integer_division.1 _ _ ha hb (by decide), ?_, ?_⟩
  · have h := integer_division.2.1 (.nat (NatBig.ofNat 7)) (.int (ofNat 2).neg) _ _ rfl rfl
      (by simp)
    simpa [NatBig.ofNat, Value.kind] using h
  · have h := integer_division.2.2 (NatBig.ofNat 7) (NatBig.ofNat 2) (by simp [NatBig.ofNat])
    simpa [NatBig.ofNat] using h

end Panackelty.Vm
