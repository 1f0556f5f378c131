import Panackelty.Vm.Numeric
import Mathlib.Data.Rat.Lemmas
import Mathlib.Tactic.FieldSimp

/-!
# Equality and ordering of numbers in the VM

`Nat`, `Int` and `Rat` values denote rational numbers.  The operators reach them by three paths: the
rational path when one operand is a `Rat`, `value_equal` for the equality of two integers, and
`pn_big_compare` for their order.

* `binaryValueClassified_order`: on every mixture of kinds an ordering operator tests the sign of
  the difference of the cross products, so `holds_less_iff` and its companions compare the rational
  numbers.
* `holds_equal_iff`: `==` compares them too, except that a `Nat` is never equal to an `Int`.
* `equalityLaws_iff`: when `==` is the equality of rational numbers, consistent with the ordering.
-/

namespace Panackelty.Vm

open Big

/-- A value of kind `Nat`, `Int` or `Rat`. -/
structure Number where
  value : Value
  operand : rationalOperand value = true

namespace Number

variable {a b : Number}

/-- The numerator. -/
def numerator (a : Number) : ℤ := (rationalNumerator a.value).toInt

/-- The denominator. -/
def denominator (a : Number) : ℤ := (rationalDenominator a.value).toInt

/-- The rational number that a value denotes. -/
def denote (a : Number) : ℚ := a.numerator / a.denominator

/-- The operator with code `op` answers `true`. -/
def Holds (op : ℕ) (a b : Number) : Prop :=
  binaryValueClassified op a.value b.value = .ok (.bool true)

/-- A natural number. -/
def ofNat (n : NatBig) : Number := ⟨.nat n, rfl⟩

/-- An integer. -/
def ofInt (n : Big) : Number := ⟨.int n, rfl⟩

/-- A rational number. -/
def ofRatio (r : Ratio) : Number := ⟨.rat r, rfl⟩

theorem cases_kind (a : Number) : (∃ n, a = ofNat n) ∨ (∃ n, a = ofInt n) ∨ ∃ r, a = ofRatio r := by
  obtain ⟨v, hv⟩ := a
  cases v <;> first
    | exact Or.inl ⟨_, rfl⟩
    | exact Or.inr (Or.inl ⟨_, rfl⟩)
    | exact Or.inr (Or.inr ⟨_, rfl⟩)
    | cases hv

theorem denominator_pos (a : Number) : 0 < a.denominator := by
  rcases a.cases_kind with ⟨n, rfl⟩ | ⟨n, rfl⟩ | ⟨r, rfl⟩
  · exact Int.one_pos
  · exact Int.one_pos
  · exact r.positive

theorem denote_lt_iff :
    a.denote < b.denote ↔ a.numerator * b.denominator < b.numerator * a.denominator := by
  have ha : (0 : ℚ) < a.denominator := by exact_mod_cast a.denominator_pos
  have hb : (0 : ℚ) < b.denominator := by exact_mod_cast b.denominator_pos
  rw [denote, denote, div_lt_div_iff₀ ha hb]
  exact_mod_cast Iff.rfl

theorem denote_eq_iff :
    a.denote = b.denote ↔ a.numerator * b.denominator = b.numerator * a.denominator := by
  have ha : (a.denominator : ℚ) ≠ 0 := by exact_mod_cast a.denominator_pos.ne'
  have hb : (b.denominator : ℚ) ≠ 0 := by exact_mod_cast b.denominator_pos.ne'
  rw [denote, denote, div_eq_div_iff ha hb]
  exact_mod_cast Iff.rfl

/-! ## Ordering -/

/-- The comparison of cross products that decides every ordering. -/
def crossCompare (a b : Number) : ℤ :=
  ((rationalNumerator a.value).mul (rationalDenominator b.value)).compare
    ((rationalNumerator b.value).mul (rationalDenominator a.value))

theorem crossCompare_eq_sign (a b : Number) :
    crossCompare a b = (a.numerator * b.denominator - b.numerator * a.denominator).sign := by
  rw [crossCompare, compare_eq_sign, toInt_mul, toInt_mul]
  rfl

theorem crossCompare_lt_zero_iff : crossCompare a b < 0 ↔ a.denote < b.denote := by
  rw [crossCompare_eq_sign, Int.sign_neg_iff, sub_neg, denote_lt_iff]

theorem zero_lt_crossCompare_iff : 0 < crossCompare a b ↔ b.denote < a.denote := by
  rw [crossCompare_eq_sign, Int.sign_pos_iff, sub_pos, denote_lt_iff]

theorem crossCompare_eq_zero_iff : crossCompare a b = 0 ↔ a.denote = b.denote := by
  rw [crossCompare_eq_sign, Int.sign_eq_zero_iff_zero, sub_eq_zero, denote_eq_iff]

/-- Between two integers the cross products are the integers themselves. -/
theorem crossCompare_of_integers {m n : Big} (ha : rationalNumerator a.value = m)
    (hb : rationalNumerator b.value = n) (ha' : rationalDenominator a.value = Big.ofNat 1)
    (hb' : rationalDenominator b.value = Big.ofNat 1) : crossCompare a b = m.compare n := by
  rw [crossCompare, ha, hb, ha', hb', compare_eq_sign, compare_eq_sign]
  simp

/-- Every mixture of kinds is ordered by the cross products. -/
theorem binaryValueClassified_order (a b : Number) {op : ℕ} (h7 : 7 ≤ op) (h10 : op ≤ 10) :
    binaryValueClassified op a.value b.value = .ok (.bool (orderTest op (crossCompare a b))) := by
  have h11 : ¬ (op = 11 ∨ op = 12) := by omega
  have h5 : 5 ≤ op := by omega
  have h56 : ¬ (op = 5 ∨ op = 6) := by omega
  have hop5 : op ≠ 5 := by omega
  have hop6 : op ≠ 6 := by omega
  by_cases hrat : a.value.kind = .rat ∨ b.value.kind = .rat ∨ op = 3
  · rw [binaryValueClassified, if_pos ⟨h10, a.operand, b.operand, hrat⟩, rationalBinary]
    simp [h5, hop5, hop6, crossCompare]
  rw [binaryValueClassified, if_neg (fun h => hrat h.2.2.2), if_neg h11, if_pos h5,
    comparisonBinary, if_neg h56]
  -- neither operand is a `Rat`: the integers are compared directly
  rcases a.cases_kind with ⟨m, rfl⟩ | ⟨m, rfl⟩ | ⟨r, rfl⟩
  · rcases b.cases_kind with ⟨n, rfl⟩ | ⟨n, rfl⟩ | ⟨r, rfl⟩
    · rw [crossCompare_of_integers rfl rfl rfl rfl]; rfl
    · rw [crossCompare_of_integers rfl rfl rfl rfl]; rfl
    · exact absurd (Or.inr (Or.inl rfl)) hrat
  · rcases b.cases_kind with ⟨n, rfl⟩ | ⟨n, rfl⟩ | ⟨r, rfl⟩
    · rw [crossCompare_of_integers rfl rfl rfl rfl]; rfl
    · rw [crossCompare_of_integers rfl rfl rfl rfl]; rfl
    · exact absurd (Or.inr (Or.inl rfl)) hrat
  · exact absurd (Or.inl rfl) hrat

theorem holds_order_iff {op : ℕ} (h7 : 7 ≤ op) (h10 : op ≤ 10) :
    Holds op a b ↔ orderTest op (crossCompare a b) = true := by
  rw [Holds, binaryValueClassified_order a b h7 h10]
  simp

theorem holds_less_iff : Holds 7 a b ↔ a.denote < b.denote := by
  rw [holds_order_iff (by decide) (by decide), ← crossCompare_lt_zero_iff]
  simp [orderTest]

theorem holds_greater_iff : Holds 9 a b ↔ b.denote < a.denote := by
  rw [holds_order_iff (by decide) (by decide), ← zero_lt_crossCompare_iff]
  simp [orderTest]

theorem holds_lessEqual_iff : Holds 8 a b ↔ a.denote ≤ b.denote := by
  rw [holds_order_iff (by decide) (by decide), ← not_lt, ← zero_lt_crossCompare_iff, not_lt]
  simp [orderTest]

theorem holds_greaterEqual_iff : Holds 10 a b ↔ b.denote ≤ a.denote := by
  rw [holds_order_iff (by decide) (by decide), ← not_lt, ← crossCompare_lt_zero_iff, not_lt]
  simp [orderTest]

/-! ## Equality -/

/-- One operand is a `Nat` and the other an `Int`. -/
def KindClash (a b : Number) : Prop :=
  (a.value.kind = .nat ∧ b.value.kind = .int) ∨ (a.value.kind = .int ∧ b.value.kind = .nat)

instance : Decidable (KindClash a b) := inferInstanceAs (Decidable (_ ∨ _))

/-- On every mixture of kinds but `Nat` with `Int`, equality tests the cross products. -/
theorem binaryValueClassified_equal (h : ¬ KindClash a b) :
    binaryValueClassified 5 a.value b.value = .ok (.bool (crossCompare a b == 0)) ∧
      binaryValueClassified 6 a.value b.value = .ok (.bool (crossCompare a b != 0)) := by
  by_cases hrat : a.value.kind = .rat ∨ b.value.kind = .rat
  · have h5 : (5 : ℕ) ≤ 10 ∧ rationalOperand a.value = true ∧ rationalOperand b.value = true ∧
        (a.value.kind = .rat ∨ b.value.kind = .rat ∨ (5 : ℕ) = 3) :=
      ⟨by decide, a.operand, b.operand, hrat.imp_right Or.inl⟩
    have h6 : (6 : ℕ) ≤ 10 ∧ rationalOperand a.value = true ∧ rationalOperand b.value = true ∧
        (a.value.kind = .rat ∨ b.value.kind = .rat ∨ (6 : ℕ) = 3) :=
      ⟨by decide, a.operand, b.operand, hrat.imp_right Or.inl⟩
    rw [binaryValueClassified, if_pos h5, binaryValueClassified, if_pos h6]
    simp [rationalBinary, crossCompare]
  · -- two integers of one kind
    rcases a.cases_kind with ⟨m, rfl⟩ | ⟨m, rfl⟩ | ⟨r, rfl⟩
    · rcases b.cases_kind with ⟨n, rfl⟩ | ⟨n, rfl⟩ | ⟨r, rfl⟩
      · rw [crossCompare_of_integers rfl rfl rfl rfl]
        simp [binaryValueClassified, ofNat, rationalOperand, Value.kind, comparisonBinary,
          valueEqual, rationalNumerator, bne]
      · exact absurd (Or.inl ⟨rfl, rfl⟩) h
      · exact absurd (Or.inr rfl) hrat
    · rcases b.cases_kind with ⟨n, rfl⟩ | ⟨n, rfl⟩ | ⟨r, rfl⟩
      · exact absurd (Or.inr ⟨rfl, rfl⟩) h
      · rw [crossCompare_of_integers rfl rfl rfl rfl]
        simp [binaryValueClassified, ofInt, rationalOperand, Value.kind, comparisonBinary,
          valueEqual, rationalNumerator, bne]
      · exact absurd (Or.inr rfl) hrat
    · exact absurd (Or.inl rfl) hrat

/-- A `Nat` and an `Int` are never equal to `value_equal`. -/
theorem binaryValueClassified_clash (h : KindClash a b) :
    binaryValueClassified 5 a.value b.value = .ok (.bool false) ∧
      binaryValueClassified 6 a.value b.value = .ok (.bool true) := by
  rcases a.cases_kind with ⟨m, rfl⟩ | ⟨m, rfl⟩ | ⟨r, rfl⟩ <;>
    rcases b.cases_kind with ⟨n, rfl⟩ | ⟨n, rfl⟩ | ⟨r', rfl⟩ <;>
    simp_all [KindClash, ofNat, ofInt, ofRatio, Value.kind, binaryValueClassified,
      rationalOperand, comparisonBinary, valueEqual]

theorem holds_equal_iff : Holds 5 a b ↔ a.denote = b.denote ∧ ¬ KindClash a b := by
  rw [Holds]
  by_cases h : KindClash a b
  · simp [(binaryValueClassified_clash h).1, h]
  · rw [(binaryValueClassified_equal h).1, ← crossCompare_eq_zero_iff]
    simp [h]

theorem holds_notEqual_iff : Holds 6 a b ↔ ¬ Holds 5 a b := by
  rw [Holds, Holds]
  by_cases h : KindClash a b
  · simp [(binaryValueClassified_clash h).1, (binaryValueClassified_clash h).2]
  · simp [(binaryValueClassified_equal h).1, (binaryValueClassified_equal h).2]

/-- What `==` promises on a set of numbers: it is the equality of the rational numbers they denote,
hence an equivalence, and it agrees with the ordering operators and with `!=`. -/
structure EqualityLaws (s : List Number) : Prop where
  denote : ∀ a ∈ s, ∀ b ∈ s, Holds 5 a b ↔ a.denote = b.denote
  refl : ∀ a ∈ s, Holds 5 a a
  symm : ∀ a ∈ s, ∀ b ∈ s, Holds 5 a b → Holds 5 b a
  trans : ∀ a ∈ s, ∀ b ∈ s, ∀ c ∈ s, Holds 5 a b → Holds 5 b c → Holds 5 a c
  between : ∀ a ∈ s, ∀ b ∈ s, Holds 5 a b ↔ Holds 8 a b ∧ Holds 10 a b
  trichotomy : ∀ a ∈ s, ∀ b ∈ s, (Holds 7 a b ∧ ¬ Holds 5 a b ∧ ¬ Holds 9 a b) ∨
    (¬ Holds 7 a b ∧ Holds 5 a b ∧ ¬ Holds 9 a b) ∨ (¬ Holds 7 a b ∧ ¬ Holds 5 a b ∧ Holds 9 a b)
  negation : ∀ a ∈ s, ∀ b ∈ s, Holds 6 a b ↔ ¬ Holds 5 a b

/-- The laws hold wherever `==` is the equality of rational numbers. -/
theorem EqualityLaws.of_denote {s : List Number}
    (h : ∀ a ∈ s, ∀ b ∈ s, Holds 5 a b ↔ a.denote = b.denote) : EqualityLaws s where
  denote := h
  refl a ha := (h a ha a ha).mpr rfl
  symm a ha b hb hab := (h b hb a ha).mpr ((h a ha b hb).mp hab).symm
  trans a ha b hb c hc hab hbc :=
    (h a ha c hc).mpr (((h a ha b hb).mp hab).trans ((h b hb c hc).mp hbc))
  between a ha b hb := by
    rw [h a ha b hb, holds_lessEqual_iff, holds_greaterEqual_iff]
    exact le_antisymm_iff
  trichotomy a ha b hb := by
    rw [h a ha b hb, holds_less_iff, holds_greater_iff]
    rcases lt_trichotomy a.denote b.denote with hlt | heq | hgt
    · exact Or.inl ⟨hlt, hlt.ne, hlt.not_gt⟩
    · exact Or.inr (Or.inl ⟨heq.not_lt, heq, heq.not_gt⟩)
    · exact Or.inr (Or.inr ⟨hgt.not_gt, hgt.ne', hgt⟩)
  negation _ _ _ _ := holds_notEqual_iff

/-- The laws hold of three numbers exactly when no two of them are a `Nat` and an `Int` that denote
the same number. -/
theorem equalityLaws_iff (a b c : Number) : EqualityLaws [a, b, c] ↔
    ∀ x ∈ [a, b, c], ∀ y ∈ [a, b, c], ¬ (KindClash x y ∧ x.denote = y.denote) := by
  constructor
  · rintro laws x hx y hy ⟨hclash, heq⟩
    exact (holds_equal_iff.mp ((laws.denote x hx y hy).mpr heq)).2 hclash
  intro h
  refine EqualityLaws.of_denote fun x hx y hy => ?_
  rw [holds_equal_iff]
  exact ⟨And.left, fun heq => ⟨heq, fun hclash => h x hx y hy ⟨hclash, heq⟩⟩⟩

/-- `3` as a `Nat`, `3/1` as a `Rat` and `3` as an `Int`: the outer two equal the middle one and not
each other. -/
theorem equalityLaws_fails_nat_rat_int : ¬ EqualityLaws [ofNat (NatBig.ofNat 3),
    ofRatio ⟨Big.ofNat 3, Big.ofNat 1, by decide, by decide⟩, ofInt (Big.ofNat 3)] := by
  intro laws
  have h := laws.trans (ofNat (NatBig.ofNat 3)) (by simp)
    (ofRatio ⟨Big.ofNat 3, Big.ofNat 1, by decide, by decide⟩) (by simp)
    (ofInt (Big.ofNat 3)) (by simp) rfl rfl
  exact (holds_equal_iff.mp h).2 (Or.inl ⟨rfl, rfl⟩)

end Number

end Panackelty.Vm
