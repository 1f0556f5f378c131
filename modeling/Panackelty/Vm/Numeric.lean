import Panackelty.Vm.Value

/-!
# `vm/numeric.c`: exact arithmetic on values

Operators are the byte codes of the format: `0` to `4` are `+ - * / %`, `5` to `10` are
`== != < <= > >=`, and `11`, `12` are `&&` and `||`.  A `NULL` result without a message is an
allocation failure, which the dispatch loop reports as `native VM out of memory`.

* `bigGcd_spec`, `ratParts_spec`: fractions are brought to lowest terms.
* `binaryValueClassified`: the operators on values, with their traps.
-/

namespace Panackelty.Vm

open Big

/-- `VMFaultKind`. -/
inductive VMFaultKind where
  | fatal
  | request
  deriving DecidableEq, Repr

/-- A failed operation: the message left in `error`, and the fault kind. -/
structure Trap where
  error : String
  fault : VMFaultKind
  deriving DecidableEq, Repr

/-- A fatal trap. -/
def fatal (error : String) : Trap := ⟨error, .fatal⟩

/-- A trap of one request. -/
def request (error : String) : Trap := ⟨error, .request⟩

/-- The message for a `NULL` result that carries none. -/
def outOfMemory : Trap := fatal "native VM out of memory"

/-! ## Lowest terms -/

/-- The Euclidean loop of `big_gcd`. -/
def bigGcdLoop : ℕ → Big → Big → Option Big
  | 0, _, _ => none
  | fuel + 1, a, b =>
    if b.isZero then some a
    else
      match a.divmod b with
      | none => none
      | some (_, r) => bigGcdLoop fuel b r.abs

/-- `big_gcd`; the second number falls in every round, which bounds the rounds. -/
def bigGcd (left right : Big) : Option Big :=
  bigGcdLoop (right.raw.magnitude + 1) left.abs right.abs

/-- The numerator and denominator that `value_rat_classified` stores. -/
def ratParts (n d : Big) : Option (Big × Big) :=
  match bigGcd n d with
  | none => none
  | some gcd =>
    match n.divmod gcd, d.divmod gcd with
    | some (nn, _), some (dd, _) =>
      if dd.raw.sign < 0 then some (nn.neg, dd.neg) else some (nn, dd)
    | _, _ => none

theorem bigGcdLoop_spec : ∀ (fuel : ℕ) (a b : Big), 0 ≤ a.toInt → 0 ≤ b.toInt →
    b.toInt.natAbs < fuel →
    ∃ g, bigGcdLoop fuel a b = some g ∧ g.toInt = Int.gcd a.toInt b.toInt
  | 0, _, _, _, _, h => absurd h (Nat.not_lt_zero _)
  | fuel + 1, a, b, ha, hb, h => by
    rw [bigGcdLoop]
    by_cases hz : b.isZero
    · rw [if_pos hz]
      refine ⟨a, rfl, ?_⟩
      rw [isZero_iff.mp hz, Int.gcd_zero_right, Int.natAbs_of_nonneg ha]
    have hb0 : b.toInt ≠ 0 := fun h0 => hz (isZero_iff.mpr h0)
    obtain ⟨q, r, hdiv, _, hr⟩ := divmod_eq_some (a := a) hb0
    rw [if_neg hz, hdiv]
    have hmod : r.abs.toInt = a.toInt % b.toInt := by
      rw [toInt_abs, hr, Int.tmod_eq_emod_of_nonneg ha,
        Int.natAbs_of_nonneg (Int.emod_nonneg _ hb0)]
    have hlt : r.abs.toInt.natAbs < fuel := by
      have := Int.emod_lt_of_pos a.toInt (lt_of_le_of_ne hb (Ne.symm hb0))
      have := Int.emod_nonneg a.toInt hb0
      omega
    obtain ⟨g, hg, hgcd⟩ := bigGcdLoop_spec fuel b r.abs hb (by rw [toInt_abs]; omega) hlt
    refine ⟨g, hg, ?_⟩
    rw [hgcd, hmod, Int.gcd_comm, Int.gcd_emod]

theorem bigGcd_spec (left right : Big) :
    ∃ g, bigGcd left right = some g ∧ g.toInt = Int.gcd left.toInt right.toInt := by
  have hfuel : right.abs.toInt.natAbs < right.raw.magnitude + 1 := by
    rw [toInt_abs, toInt, right.normal.natAbs_toInt]
    omega
  obtain ⟨g, hg, h⟩ := bigGcdLoop_spec _ left.abs right.abs (by simp) (by simp) hfuel
  refine ⟨g, hg, ?_⟩
  rw [h, toInt_abs, toInt_abs]
  rfl

/-- The stored fraction is in lowest terms over a positive denominator, and equal to the given
one. -/
theorem ratParts_spec (n : Big) {d : Big} (hd : d.toInt ≠ 0) :
    ∃ nn dd, ratParts n d = some (nn, dd) ∧ nn.toInt * d.toInt = n.toInt * dd.toInt ∧
      0 < dd.toInt ∧ Int.gcd nn.toInt dd.toInt = 1 := by
  obtain ⟨g, hg, hgcd⟩ := bigGcd_spec n d
  have hpos : 0 < Int.gcd n.toInt d.toInt := Int.gcd_pos_of_ne_zero_right _ hd
  have hg0 : g.toInt ≠ 0 := by rw [hgcd]; exact_mod_cast hpos.ne'
  obtain ⟨nn, r, hn, hnn, _⟩ := divmod_eq_some (a := n) hg0
  obtain ⟨dd, r', hdd, hddv, _⟩ := divmod_eq_some (a := d) hg0
  have hdn : g.toInt ∣ n.toInt := hgcd ▸ Int.gcd_dvd_left _ _
  have hdd' : g.toInt ∣ d.toInt := hgcd ▸ Int.gcd_dvd_right _ _
  rw [Int.tdiv_eq_ediv_of_dvd hdn] at hnn
  rw [Int.tdiv_eq_ediv_of_dvd hdd'] at hddv
  have h1 : nn.toInt * g.toInt = n.toInt := by rw [hnn, Int.ediv_mul_cancel hdn]
  have h2 : dd.toInt * g.toInt = d.toInt := by rw [hddv, Int.ediv_mul_cancel hdd']
  have hcop : Int.gcd nn.toInt dd.toInt = 1 := by
    rw [hnn, hddv, hgcd]
    exact Int.gcd_div_gcd_div_gcd hpos
  have hdd0 : dd.toInt ≠ 0 := by
    intro h0
    rw [h0, zero_mul] at h2
    exact hd h2.symm
  have hcross : nn.toInt * d.toInt = n.toInt * dd.toInt := by
    rw [← h1, ← h2]
    ring
  simp only [ratParts, hg, hn, hdd, raw_sign_neg_iff]
  split_ifs with hneg
  · refine ⟨_, _, rfl, ?_, ?_, ?_⟩
    · rw [toInt_neg, toInt_neg]
      linarith
    · rw [toInt_neg]
      omega
    · rw [toInt_neg, toInt_neg, Int.gcd_neg, Int.neg_gcd, hcop]
  · exact ⟨_, _, rfl, hcross, by omega, hcop⟩

theorem ratParts_some {n d nn dd : Big} (hd : d.isZero = false)
    (h : ratParts n d = some (nn, dd)) : 0 < dd.toInt ∧ Int.gcd nn.toInt dd.toInt = 1 := by
  have hd0 : d.toInt ≠ 0 := fun h0 => by
    rw [isZero_iff.mpr h0] at hd
    cases hd
  obtain ⟨nn', dd', heq, _, hpos, hcop⟩ := ratParts_spec n hd0
  cases heq.symm.trans h
  exact ⟨hpos, hcop⟩

/-- `value_rat_classified`. -/
def valueRatClassified (n d : Big) : Except Trap Value :=
  match hd : d.isZero with
  | true => .error (request "VM trap: division by zero")
  | false =>
    match h : ratParts n d with
    | none => .error outOfMemory
    | some (nn, dd) =>
      .ok (.rat ⟨nn, dd, (ratParts_some hd h).1, (ratParts_some hd h).2⟩)

/-! ## Decimals -/

/-- A result of `int` arithmetic.  C leaves overflow undefined; the machine wraps around. -/
def wrapInt (n : ℤ) : ℤ := (n + 2 ^ 31) % 2 ^ 32 - 2 ^ 31

/-- The conversion of an `int` to `size_t`. -/
def sizeOfInt (n : ℤ) : ℕ := (n % 2 ^ 64).toNat

/-- `decimal_align`: both coefficients over the smaller exponent.  A difference of the exponents
that is no `int` gives no result: the wrapped difference, as a `size_t`, asks `pn_big_pow10` for at
least `2 ^ 64 - 2 ^ 31` rounds. -/
def decimalAlign (a b : Decimal) : Option (Big × Big × ℤ) :=
  let exponent := if a.exponent < b.exponent then a.exponent else b.exponent
  if (a.exponent - b.exponent).natAbs < 2 ^ 31 then
    some (a.coefficient.pow10 (a.exponent - exponent).toNat,
      b.coefficient.pow10 (b.exponent - exponent).toNat, exponent)
  else none

theorem decimalAlign_isSome_iff {a b : Decimal} : (decimalAlign a b).isSome ↔
    (a.exponent - b.exponent).natAbs < 2 ^ 31 := by
  unfold decimalAlign
  by_cases hfit : (a.exponent - b.exponent).natAbs < 2 ^ 31
  · exact iff_of_true (by rw [if_pos hfit]; rfl) hfit
  · exact iff_of_false (by rw [if_neg hfit]; exact Bool.false_ne_true) hfit

/-- `value_decimal`: a new value has no negative zero. -/
def valueDecimal (coefficient : Big) (exponent : ℤ) : Value :=
  .dec ⟨coefficient, exponent, false⟩

/-- The loop that divides the denominator by two and five, counting both; `none` when another prime
factor is left. -/
def countTwosFives : ℕ → Big → ℕ → ℕ → Option (ℕ × ℕ)
  | 0, _, _, _ => none
  | fuel + 1, den, twos, fives =>
    if den.isOne then some (twos, fives)
    else
      let (half, rem) := den.divSmall 2 (by decide)
      if rem = 0 then countTwosFives fuel half (twos + 1) fives
      else
        let (fifth, rem) := den.divSmall 5 (by decide)
        if rem = 0 then countTwosFives fuel fifth twos (fives + 1) else none

/-- Repeated `pn_big_mul_small`. -/
def mulSmallTimes (num : Big) (factor : ℕ) (h : factor ≤ base) : ℕ → Big
  | 0 => num
  | times + 1 => mulSmallTimes (num.mulSmall factor h) factor h times

/-- The loop that removes fractional trailing zeros; each round raises the exponent, so `fuel` is
the number of fractional digits. -/
def stripZeros : ℕ → Big → ℤ → Big × ℤ
  | 0, num, exponent => (num, exponent)
  | fuel + 1, num, exponent =>
    if exponent < 0 ∧ num.raw.limbs.headD 0 % 10 = 0 then
      stripZeros fuel (num.divSmall 10 (by decide)).1 (exponent + 1)
    else (num, exponent)

/-- The exact quotient of two decimals in `decimal_binary_classified`. -/
def decimalDivide (a b : Decimal) : Except Trap Value :=
  if b.coefficient.isZero then .error (request "VM trap: division by zero")
  else
    match bigGcd a.coefficient b.coefficient with
    | none => .error outOfMemory
    | some gcd =>
      match a.coefficient.divmod gcd, b.coefficient.divmod gcd with
      | some (num, _), some (den, _) =>
        let (num, den) := if den.raw.sign < 0 then (num.neg, den.neg) else (num, den)
        match countTwosFives (30 * den.raw.limbs.length + 1) den 0 0 with
        | none => .error
            (request "VM trap: non-terminating decimal division requires explicit rounding")
        | some (twos, fives) =>
          let places := max twos fives
          let num := mulSmallTimes num 2 (by decide) (places - twos)
          let num := mulSmallTimes num 5 (by decide) (places - fives)
          let exponent := wrapInt (wrapInt (a.exponent - b.exponent) - wrapInt places)
          let (num, exponent) :=
            if num.isZero then (num, 0) else stripZeros (-exponent).toNat num exponent
          .ok (valueDecimal num exponent)
      | _, _ => .error outOfMemory

/-- `decimal_binary_classified`. -/
def decimalBinaryClassified (op : ℕ) (a b : Decimal) : Except Trap Value :=
  if op = 0 ∨ op = 1 ∨ op = 4 then
    match decimalAlign a b with
    | none => .error outOfMemory
    | some (left, right, exponent) =>
      if op = 0 then .ok (valueDecimal (left.add right) exponent)
      else if op = 1 then .ok (valueDecimal (left.sub right) exponent)
      else if right.isZero then .error (request "VM trap: division by zero")
      else
        match left.divmod right with
        | none => .error outOfMemory
        | some (_, r) => .ok (valueDecimal r exponent)
  else if op = 2 then
    .ok (valueDecimal (a.coefficient.mul b.coefficient) (wrapInt (a.exponent + b.exponent)))
  else if op = 3 then decimalDivide a b
  else .error outOfMemory

/-! ## Operators on values -/

/-- `rational_operand`. -/
def rationalOperand : Value → Bool
  | .rat _ | .nat _ | .int _ => true
  | _ => false

/-- The numerator that `rational_binary` reads. -/
def rationalNumerator : Value → Big
  | .rat r => r.numerator
  | .nat n => n.big
  | .int n => n
  | _ => ofNat 0

/-- The denominator that `rational_binary` reads. -/
def rationalDenominator : Value → Big
  | .rat r => r.denominator
  | _ => ofNat 1

/-- The test that an ordering operator makes on a comparison result. -/
def orderTest (op : ℕ) (c : ℤ) : Bool :=
  if op = 7 then decide (c < 0) else if op = 8 then decide (c ≤ 0)
  else if op = 9 then decide (0 < c) else decide (0 ≤ c)

/-- `rational_binary`. -/
def rationalBinary (op : ℕ) (a b : Value) : Except Trap Value :=
  let an := rationalNumerator a
  let ad := rationalDenominator a
  let bn := rationalNumerator b
  let bd := rationalDenominator b
  if 5 ≤ op ∨ op = 0 ∨ op = 1 then
    let left := an.mul bd
    let right := bn.mul ad
    if 5 ≤ op then
      let c := left.compare right
      .ok (.bool (if op = 5 then c == 0 else if op = 6 then c != 0 else orderTest op c))
    else
      valueRatClassified (if op = 0 then left.add right else left.sub right) (ad.mul bd)
  else if op = 2 ∨ op = 3 then
    valueRatClassified (an.mul (if op = 2 then bn else bd)) (ad.mul (if op = 2 then bd else bn))
  else .error (fatal "VM trap: Rat does not support remainder")

/-- The result of `memcmp` on the common length, then the lengths. -/
def compareBytes : Bytes → Bytes → ℤ
  | [], [] => 0
  | [], _ :: _ => -1
  | _ :: _, [] => 1
  | a :: as, b :: bs => if a = b then compareBytes as bs else if a < b then -1 else 1

/-- `compare_values` on operands that are `comparable`; `none` otherwise. -/
def compareValues : Value → Value → Option ℤ
  | .dec a, .dec b => some (decimalCompare a b)
  | .nat a, .nat b => some (a.big.compare b.big)
  | .nat a, .int b => some (a.big.compare b)
  | .int a, .nat b => some (a.compare b.big)
  | .int a, .int b => some (a.compare b)
  | .str a, .str b => some (compareBytes a b)
  | _, _ => none

/-- The integer in a `V_NAT` or `V_INT`. -/
def integerOf : Value → Option Big
  | .nat n => some n.big
  | .int n => some n
  | _ => none

/-- `value_big` with kind `V_NAT`, after the underflow test. -/
def natResult (result : Big) : Except Trap Value :=
  if h : result.raw.sign < 0 then .error (request "VM trap: Nat underflow")
  else .ok (.nat ⟨result, not_lt.mp fun hneg => h (raw_sign_neg_iff.mpr hneg)⟩)

/-- The remainder, which takes the sign of the divisor. -/
def integerRemainder (a b : Big) : Except Trap Big :=
  if b.isZero then .error (request "VM trap: division by zero")
  else
    match a.divmod b with
    | none => .error outOfMemory
    | some (_, r) => .ok (if ¬ r.isZero ∧ a.raw.sign ≠ b.raw.sign then r.add b else r)

/-- The integer part of `binary_value_classified`: `+ - * %` on `Nat` and `Int` operands. -/
def integerBinary (op : ℕ) (x y : Big) (isInt : Bool) : Except Trap Value := do
  let result ←
    if op = 0 then .ok (x.add y)
    else if op = 1 then .ok (x.sub y)
    else if op = 2 then .ok (x.mul y)
    else integerRemainder x y
  if isInt then .ok (.int result) else natResult result

/-- The Boolean operators. -/
def booleanBinary (op : ℕ) : Value → Value → Except Trap Value
  | .bool a, .bool b => .ok (.bool (if op = 11 then a && b else a || b))
  | _, _ => .error (fatal "VM trap: Boolean operator requires Bool")

/-- Equality and ordering of operands outside the rational path. -/
def comparisonBinary (op : ℕ) (a b : Value) : Except Trap Value :=
  if op = 5 ∨ op = 6 then .ok (.bool (valueEqual a b ^^ decide (op = 6)))
  else
    match compareValues a b with
    | none => .error (fatal "VM trap: incompatible comparison operands")
    | some cmp => .ok (.bool (orderTest op cmp))

/-- Arithmetic on strings, decimals and integers. -/
def arithmeticBinary (op : ℕ) : Value → Value → Except Trap Value
  | .str a, .str b =>
    if op = 0 then .ok (.str (a ++ b)) else .error (fatal "VM trap: incompatible binary operands")
  | .dec a, .dec b => decimalBinaryClassified op a b
  | .nat a, .nat b => integerBinary op a.big b.big false
  | .nat a, .int b => integerBinary op a.big b true
  | .int a, .nat b => integerBinary op a b.big true
  | .int a, .int b => integerBinary op a b true
  | _, _ => .error (fatal "VM trap: incompatible binary operands")

/-- `binary_value_classified`. -/
def binaryValueClassified (op : ℕ) (a b : Value) : Except Trap Value :=
  if op ≤ 10 ∧ rationalOperand a ∧ rationalOperand b ∧ (a.kind = .rat ∨ b.kind = .rat ∨ op = 3) then
    rationalBinary op a b
  else if op = 11 ∨ op = 12 then booleanBinary op a b
  else if 5 ≤ op then comparisonBinary op a b
  else arithmeticBinary op a b

end Panackelty.Vm
