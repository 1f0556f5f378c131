import Panackelty.Vm.NumberLaws

/-!
# Rational arithmetic in the VM

`rational_binary` works on fractions of big integers and hands every result but a comparison to
`value_rat_classified`, which brings it to lowest terms.  Over `Number.denote` the operators are
those of `ℚ`.

* `valueRatClassified_spec`: the stored fraction is the given one.
* `rational_operators_exact`: the operators on `Nat`, `Int` and `Rat` operands.
-/

namespace Panackelty.Vm

open Big

/-- The operator answers with a `Bool`, which is the truth value of `p`. -/
def Answers (op : ℕ) (a b : Value) (p : Prop) : Prop :=
  ∃ answer, binaryValueClassified op a b = .ok (.bool answer) ∧ (answer = true ↔ p)

theorem answers_equal {a : Value} (h : rationalOperand a = false) (b : Value) :
    Answers 5 a b (valueEqual a b = true) ∧ Answers 6 a b (¬ valueEqual a b = true) := by
  constructor
  · exact ⟨valueEqual a b, by simp [binaryValueClassified, h, comparisonBinary], Iff.rfl⟩
  · exact ⟨!valueEqual a b, by simp [binaryValueClassified, h, comparisonBinary], by simp⟩

/-- Outside the rational path the orderings test the result of `compare_values`. -/
theorem answers_order {a b : Value} {c : ℤ} (h : rationalOperand a = false)
    (hc : compareValues a b = some c) :
    Answers 7 a b (c < 0) ∧ Answers 8 a b (c ≤ 0) ∧ Answers 9 a b (0 < c) ∧
      Answers 10 a b (0 ≤ c) := by
  refine ⟨⟨decide (c < 0), ?_, decide_eq_true_iff⟩, ⟨decide (c ≤ 0), ?_, decide_eq_true_iff⟩,
    ⟨decide (0 < c), ?_, decide_eq_true_iff⟩, ⟨decide (0 ≤ c), ?_, decide_eq_true_iff⟩⟩ <;>
  simp [binaryValueClassified, h, comparisonBinary, hc, orderTest]

theorem Answers.congr {op : ℕ} {a b : Value} {p q : Prop} (h : Answers op a b p) (hpq : p ↔ q) :
    Answers op a b q :=
  h.imp fun _ hans => ⟨hans.1, hans.2.trans hpq⟩

namespace Ratio

/-- The rational number that a fraction stands for. -/
def denote (r : Ratio) : ℚ := r.numerator.toInt / r.denominator.toInt

theorem denote_ofRatio (r : Ratio) : (Number.ofRatio r).denote = r.denote := rfl

theorem denote_inj {r s : Ratio} : r.denote = s.denote ↔ r = s := by
  constructor
  · intro h
    rw [← denote_ofRatio, ← denote_ofRatio, Number.denote_eq_iff] at h
    exact eq_of_cross h
  · rintro rfl
    rfl

theorem denominator_of_zero (r : Ratio) (h : r.numerator.toInt = 0) : r.denominator.toInt = 1 := by
  have hgcd := r.reduced
  rw [h, Int.gcd_zero_left] at hgcd
  have := r.positive
  omega

theorem valueEqual_iff {r s : Ratio} : valueEqual (.rat r) (.rat s) = true ↔ r = s := by
  rw [valueEqual, Bool.and_eq_true, beq_iff_eq, beq_iff_eq, compare_eq_zero_iff,
    compare_eq_zero_iff]
  constructor
  · rintro ⟨hn, hd⟩
    exact eq_of_cross (by rw [hn, hd])
  · rintro rfl
    exact ⟨rfl, rfl⟩

end Ratio

/-- A fraction over a denominator that is not zero is stored as the number it is. -/
theorem valueRatClassified_spec (n : Big) {d : Big} (hd : d.toInt ≠ 0) :
    ∃ r, valueRatClassified n d = .ok (.rat r) ∧ r.denote = n.toInt / d.toInt := by
  obtain ⟨nn, dd, hparts, hcross, hpos, hcop⟩ := ratParts_spec n hd
  refine ⟨⟨nn, dd, hpos, hcop⟩, ?_, ?_⟩
  · unfold valueRatClassified
    split
    · next hz => exact absurd (isZero_iff.mp hz) hd
    split
    · next hnone =>
      cases hparts.symm.trans hnone
    · next hsome =>
      cases hparts.symm.trans hsome
      rfl
  · have hd' : (d.toInt : ℚ) ≠ 0 := by exact_mod_cast hd
    have hdd : (dd.toInt : ℚ) ≠ 0 := by exact_mod_cast hpos.ne'
    rw [Ratio.denote, div_eq_div_iff hdd hd']
    exact_mod_cast hcross

theorem valueRatClassified_zero (n : Big) {d : Big} (hd : d.toInt = 0) :
    valueRatClassified n d = .error (request "VM trap: division by zero") := by
  unfold valueRatClassified
  split
  · rfl
  · next hz => rw [isZero_iff.mpr hd] at hz; cases hz

namespace Number

variable {a b : Number}

/-- The operators that `rational_binary` serves on a pair of numbers. -/
def Rational (op : ℕ) (a b : Number) : Prop :=
  a.value.kind = .rat ∨ b.value.kind = .rat ∨ op = 3

/-- The operator answers with a `Rat` that denotes `q`. -/
def Gives (op : ℕ) (a b : Number) (q : ℚ) : Prop :=
  ∃ r, binaryValueClassified op a.value b.value = .ok (.rat r) ∧ r.denote = q

theorem binaryValueClassified_rational {op : ℕ} (hop : op ≤ 10) (h : Rational op a b) :
    binaryValueClassified op a.value b.value = rationalBinary op a.value b.value :=
  if_pos ⟨hop, a.operand, b.operand, h⟩

theorem denominator_ne_zero (a : Number) : (a.denominator : ℚ) ≠ 0 := by
  exact_mod_cast a.denominator_pos.ne'

/-- A result of `rational_binary` is read off the fraction it hands on. -/
theorem gives_of_fraction {op : ℕ} {n d : Big} {q : ℚ} (hop : op ≤ 10) (h : Rational op a b)
    (hbin : rationalBinary op a.value b.value = valueRatClassified n d) (hd : d.toInt ≠ 0)
    (hq : (n.toInt : ℚ) / d.toInt = q) : Gives op a b q := by
  obtain ⟨r, hr, hden⟩ := valueRatClassified_spec n hd
  exact ⟨r, by rw [binaryValueClassified_rational hop h, hbin, hr], hden.trans hq⟩

theorem product_ne_zero (a b : Number) :
    ((rationalDenominator a.value).mul (rationalDenominator b.value)).toInt ≠ 0 := by
  rw [toInt_mul]
  exact mul_ne_zero a.denominator_pos.ne' b.denominator_pos.ne'

theorem gives_add (h : Rational 0 a b) : Gives 0 a b (a.denote + b.denote) := by
  refine gives_of_fraction (by decide) h rfl (product_ne_zero a b) ?_
  have ha := a.denominator_ne_zero
  have hb := b.denominator_ne_zero
  simp only [if_true, toInt_add, toInt_mul]
  push_cast
  change (a.numerator * b.denominator + b.numerator * a.denominator : ℚ) /
    (a.denominator * b.denominator) = _
  rw [denote, denote]
  field_simp

theorem gives_sub (h : Rational 1 a b) : Gives 1 a b (a.denote - b.denote) := by
  refine gives_of_fraction (by decide) h rfl (product_ne_zero a b) ?_
  have ha := a.denominator_ne_zero
  have hb := b.denominator_ne_zero
  simp only [one_ne_zero, if_false, toInt_sub, toInt_mul]
  push_cast
  change (a.numerator * b.denominator - b.numerator * a.denominator : ℚ) /
    (a.denominator * b.denominator) = _
  rw [denote, denote]
  field_simp

theorem gives_mul (h : Rational 2 a b) : Gives 2 a b (a.denote * b.denote) := by
  refine gives_of_fraction (by decide) h rfl (product_ne_zero a b) ?_
  simp only [if_true, toInt_mul]
  push_cast
  change (a.numerator * b.numerator : ℚ) / (a.denominator * b.denominator) = _
  rw [denote, denote, div_mul_div_comm]

theorem numerator_eq_zero_iff : b.numerator = 0 ↔ b.denote = 0 := by
  rw [denote, div_eq_zero_iff, or_iff_left b.denominator_ne_zero, Int.cast_eq_zero]

theorem gives_div (hb : b.denote ≠ 0) : Gives 3 a b (a.denote / b.denote) := by
  have hn : b.numerator ≠ 0 := fun h => hb (numerator_eq_zero_iff.mp h)
  refine gives_of_fraction (by decide) (Or.inr (Or.inr rfl)) rfl ?_ ?_
  · rw [toInt_mul]
    exact mul_ne_zero a.denominator_pos.ne' hn
  rw [toInt_mul, toInt_mul]
  push_cast
  change (a.numerator * b.denominator : ℚ) / (a.denominator * b.numerator) = _
  rw [denote, denote, div_div_div_eq]

theorem division_by_zero (a : Number) (hb : b.denote = 0) :
    binaryValueClassified 3 a.value b.value = .error (request "VM trap: division by zero") := by
  rw [binaryValueClassified_rational (by decide) (Or.inr (Or.inr rfl))]
  refine valueRatClassified_zero _ ?_
  rw [toInt_mul]
  exact mul_eq_zero_of_right _ (numerator_eq_zero_iff.mpr hb)

theorem answers_of_holds {op : ℕ} {p : Prop} (h : a.value.kind = .rat ∨ b.value.kind = .rat)
    (h5 : 5 ≤ op) (h10 : op ≤ 10) (hp : Holds op a b ↔ p) : Answers op a.value b.value p := by
  have hbin := binaryValueClassified_rational h10 (h.imp_right Or.inl : Rational op a b)
  rw [rationalBinary] at hbin
  simp only [h5, true_or, if_true] at hbin
  refine ⟨_, hbin, ?_⟩
  rw [← hp, Holds, hbin]
  simp

/-- A comparison with a `Rat` is never between a `Nat` and an `Int`. -/
theorem not_kindClash (h : a.value.kind = .rat ∨ b.value.kind = .rat) : ¬ KindClash a b := by
  rintro (⟨ha, hb⟩ | ⟨ha, hb⟩) <;> rw [ha, hb] at h <;> simp at h

/-- On `Nat`, `Int` and `Rat` operands, one of them a `Rat` or the operator `/`: `+ - * /` return
the exact rational result, only a zero divisor fails, comparisons compare the rational numbers, a
`Rat` that comes out is in lowest terms over a positive denominator with zero as `0/1`, and
`value_equal` on `Rat` values is equality of terms and of numbers. -/
theorem rational_operators_exact : (∀ a b : Number, a.value.kind = .rat ∨ b.value.kind = .rat →
      Gives 0 a b (a.denote + b.denote) ∧ Gives 1 a b (a.denote - b.denote) ∧
      Gives 2 a b (a.denote * b.denote) ∧ Answers 5 a.value b.value (a.denote = b.denote) ∧
      Answers 6 a.value b.value (a.denote ≠ b.denote) ∧
      Answers 7 a.value b.value (a.denote < b.denote) ∧
      Answers 8 a.value b.value (a.denote ≤ b.denote) ∧
      Answers 9 a.value b.value (a.denote > b.denote) ∧
      Answers 10 a.value b.value (a.denote ≥ b.denote)) ∧
    (∀ a b : Number, b.denote ≠ 0 → Gives 3 a b (a.denote / b.denote)) ∧
    (∀ a b : Number, (∃ trap, binaryValueClassified 3 a.value b.value = .error trap) ↔
      b.denote = 0) ∧ (∀ (op : ℕ) (a b : Number) (r : Ratio),
      binaryValueClassified op a.value b.value = .ok (.rat r) →
      0 < r.denominator.toInt ∧ Int.gcd r.numerator.toInt r.denominator.toInt = 1 ∧
      (r.denote = 0 → r.numerator.toInt = 0 ∧ r.denominator.toInt = 1)) ∧
    ∀ r s : Ratio, (valueEqual (.rat r) (.rat s) = true ↔ r = s) ∧
      (r = s ↔ r.denote = s.denote) := by
  refine ⟨fun a b h => ⟨gives_add ?_, gives_sub ?_, gives_mul ?_,
    answers_of_holds h (by decide) (by decide) ?_, answers_of_holds h (by decide) (by decide) ?_,
    answers_of_holds h (by decide) (by decide) holds_less_iff,
    answers_of_holds h (by decide) (by decide) holds_lessEqual_iff,
    answers_of_holds h (by decide) (by decide) holds_greater_iff,
    answers_of_holds h (by decide) (by decide) holds_greaterEqual_iff⟩, fun a b => gives_div,
    fun a b => ⟨?_, fun hb => ⟨_, division_by_zero a hb⟩⟩,
    fun op a b r _ => ⟨r.positive, r.reduced, ?_⟩,
    fun r s => ⟨Ratio.valueEqual_iff, Ratio.denote_inj.symm⟩⟩
  · exact h.imp_right Or.inl
  · exact h.imp_right Or.inl
  · exact h.imp_right Or.inl
  · rw [holds_equal_iff, and_iff_left (not_kindClash h)]
  · rw [holds_notEqual_iff, holds_equal_iff, and_iff_left (not_kindClash h)]
  · rintro ⟨trap, htrap⟩
    by_contra hb
    obtain ⟨r, hr, _⟩ := gives_div (a := a) hb
    cases hr.symm.trans htrap
  · intro hzero
    have hn : r.numerator.toInt = 0 := (numerator_eq_zero_iff (b := ofRatio r)).mpr hzero
    exact ⟨hn, r.denominator_of_zero hn⟩

/-- The sum of `1/2` and the `Nat` `3`, and `7` over `3` as integers. -/
theorem rational_operators_exact_half :
    Gives 0 (ofRatio ⟨Big.ofNat 1, Big.ofNat 2, by decide, by decide⟩) (ofNat (NatBig.ofNat 3))
      ((ofRatio ⟨Big.ofNat 1, Big.ofNat 2, by decide, by decide⟩).denote +
        (ofNat (NatBig.ofNat 3)).denote) ∧ Gives 3 (ofInt (Big.ofNat 7)) (ofInt (Big.ofNat 3))
      ((ofInt (Big.ofNat 7)).denote / (ofInt (Big.ofNat 3)).denote) :=
  ⟨(rational_operators_exact.1 _ _ (Or.inl rfl)).1,
    rational_operators_exact.2.1 _ _ (by simp [denote, numerator, ofInt, rationalNumerator,
      rationalDenominator, denominator])⟩

end Number

end Panackelty.Vm
