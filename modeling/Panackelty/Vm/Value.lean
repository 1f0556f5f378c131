import Panackelty.Vm.BigintDiv
import Panackelty.Text
import Mathlib.RingTheory.Coprime.Lemmas
import Mathlib.RingTheory.Int.Basic

/-!
# `vm/value.h`, `vm/value.c`: runtime values

Values are reference counted and immutable apart from iterators, so sharing is left out.  The
numbers inside a value carry their invariants: a `Big` is normalised, a `NatBig` is not negative and
a `Ratio` is in lowest terms over a positive denominator.  The kinds that `value_equal` compares by
pointer carry an `address`.

* `Big.ext_toInt`: a normalised big integer is determined by its value.
* `Big.compare_eq_sign`: comparison of numbers inside values.
* `Value`, `valueEqual`: the values and `value_equal`.
-/

namespace Panackelty.Vm

/-! ## Normalised numbers -/

/-- A big integer in normal form. -/
structure Big where
  raw : PnBigInt
  normal : raw.Normal
  deriving DecidableEq

namespace Big

variable {a b : Big}

/-- The integer. -/
def toInt (v : Big) : ℤ := v.raw.toInt

theorem ext_toInt (h : a.toInt = b.toInt) : a = b := by
  cases a with
  | mk ra ha =>
    cases b with
    | mk rb hb =>
      have hraw : ra = rb := ha.ext hb h
      subst hraw
      rfl

/-- `pn_big_from_u64`. -/
def ofNat (n : ℕ) : Big := ⟨pnBigFromU64 n, pnBigFromU64_normal n⟩

/-- `pn_big_add`. -/
def add (a b : Big) : Big := ⟨pnBigAdd a.raw b.raw, (pnBigAdd_spec a.normal b.normal).1⟩

/-- `pn_big_sub`. -/
def sub (a b : Big) : Big := ⟨pnBigSub a.raw b.raw, (pnBigSub_spec a.normal b.normal).1⟩

/-- `pn_big_mul`. -/
def mul (a b : Big) : Big := ⟨pnBigMul a.raw b.raw, (pnBigMul_spec a.normal b.normal).1⟩

/-- The assignment `n.sign = -n.sign`. -/
def neg (a : Big) : Big := ⟨{ a.raw with sign := -a.raw.sign }, neg_sign_normal a.normal⟩

/-- `big_abs_copy`. -/
def abs (a : Big) : Big :=
  ⟨⟨if a.raw.limbs = [] then 0 else 1, a.raw.limbs⟩, sign_abs_normal a.normal⟩

/-- `pn_big_mul_small`. -/
def mulSmall (a : Big) (factor : ℕ) (h : factor ≤ base) : Big :=
  ⟨pnBigMulSmall a.raw factor, pnBigMulSmall_normal a.normal h⟩

/-- `pn_big_div_small`. -/
def divSmall (a : Big) (divisor : ℕ) (h : 0 < divisor ∧ divisor ≤ base) : Big × ℕ :=
  let out := pnBigDivSmall a.raw divisor
  (⟨out.1, (pnBigDivSmall_spec a.normal h.1 h.2).1⟩, out.2)

/-- `pn_big_pow10`. -/
def pow10 (a : Big) (power : ℕ) : Big :=
  ⟨pnBigPow10 a.raw power, (pnBigPow10_spec power a.normal).1⟩

/-- `pn_big_is_zero`. -/
def isZero (a : Big) : Bool := pnBigIsZero a.raw

/-- `pn_big_is_one`. -/
def isOne (a : Big) : Bool := pnBigIsOne a.raw

/-- `pn_big_compare`. -/
def compare (a b : Big) : ℤ := pnBigCompare a.raw b.raw

theorem divmod_normal {q r : PnBigInt} (h : pnBigDivmod a.raw b.raw = some (q, r)) :
    q.Normal ∧ r.Normal := by
  have hb : b.raw.toInt ≠ 0 := by
    intro h0
    have hs := b.normal.toInt_eq_zero_iff.mp h0
    simp [pnBigDivmod, hs] at h
  obtain ⟨q', r', heq, hq, hr, _⟩ := pnBigDivmod_spec a.normal b.normal hb
  rw [heq] at h
  injection h with h
  injection h with h1 h2
  exact ⟨h1 ▸ hq, h2 ▸ hr⟩

/-- `pn_big_divmod`; `none` for a zero divisor. -/
def divmod (a b : Big) : Option (Big × Big) :=
  match h : pnBigDivmod a.raw b.raw with
  | none => none
  | some (q, r) => some (⟨q, (divmod_normal h).1⟩, ⟨r, (divmod_normal h).2⟩)

@[simp] theorem toInt_ofNat (n : ℕ) : (ofNat n).toInt = n := toInt_pnBigFromU64 n

@[simp] theorem toInt_add (a b : Big) : (a.add b).toInt = a.toInt + b.toInt :=
  (pnBigAdd_spec a.normal b.normal).2

@[simp] theorem toInt_sub (a b : Big) : (a.sub b).toInt = a.toInt - b.toInt :=
  (pnBigSub_spec a.normal b.normal).2

@[simp] theorem toInt_mul (a b : Big) : (a.mul b).toInt = a.toInt * b.toInt :=
  (pnBigMul_spec a.normal b.normal).2

@[simp] theorem toInt_neg (a : Big) : a.neg.toInt = -a.toInt := toInt_neg_sign a.raw

@[simp] theorem toInt_abs (a : Big) : a.abs.toInt = a.toInt.natAbs := by
  unfold toInt
  rw [a.normal.natAbs_toInt, abs, PnBigInt.toInt, PnBigInt.magnitude, PnBigInt.magnitude]
  by_cases h : a.raw.limbs = []
  · simp [h]
  · simp [h]

theorem isZero_iff : a.isZero = true ↔ a.toInt = 0 := by
  rw [isZero, pnBigIsZero_iff a.normal, toInt]

theorem sign_raw (a : Big) : a.raw.sign = a.toInt.sign := a.normal.sign_toInt.symm

theorem raw_sign_neg_iff : a.raw.sign < 0 ↔ a.toInt < 0 := by
  rw [sign_raw, Int.sign_neg_iff]

theorem compare_eq_sign (a b : Big) : a.compare b = (a.toInt - b.toInt).sign :=
  pnBigCompare_eq_sign a.normal b.normal

theorem compare_eq_zero_iff : a.compare b = 0 ↔ a.toInt = b.toInt := by
  rw [compare_eq_sign, Int.sign_eq_zero_iff_zero, sub_eq_zero]

theorem divmod_eq_some (h : b.toInt ≠ 0) : ∃ q r, a.divmod b = some (q, r) ∧
    q.toInt = a.toInt.tdiv b.toInt ∧ r.toInt = a.toInt.tmod b.toInt := by
  obtain ⟨q, r, heq, hq, hr, h1, h2⟩ := pnBigDivmod_spec a.normal b.normal h
  refine ⟨⟨q, hq⟩, ⟨r, hr⟩, ?_, h1, h2⟩
  unfold divmod
  split
  · next hnone => rw [heq] at hnone; cases hnone
  next q' r' hsome =>
  cases heq.symm.trans hsome
  rfl

end Big

/-- The number in a `V_NAT`. -/
structure NatBig where
  big : Big
  nonneg : 0 ≤ big.toInt
  deriving DecidableEq

/-- The number in a `V_RAT`: lowest terms over a positive denominator. -/
structure Ratio where
  numerator : Big
  denominator : Big
  positive : 0 < denominator.toInt
  reduced : Int.gcd numerator.toInt denominator.toInt = 1
  deriving DecidableEq

namespace NatBig

/-- A natural number. -/
def ofNat (n : ℕ) : NatBig := ⟨Big.ofNat n, by simp⟩

end NatBig

/-- Two fractions in lowest terms with equal cross products have the same terms. -/
theorem Ratio.eq_of_cross {a b : Ratio} (h : a.numerator.toInt * b.denominator.toInt =
    b.numerator.toInt * a.denominator.toInt) : a = b := by
  have ha : IsCoprime a.numerator.toInt a.denominator.toInt :=
    Int.isCoprime_iff_gcd_eq_one.mpr a.reduced
  have hb : IsCoprime b.numerator.toInt b.denominator.toInt :=
    Int.isCoprime_iff_gcd_eq_one.mpr b.reduced
  have hdvd1 : a.denominator.toInt ∣ b.denominator.toInt :=
    ha.symm.dvd_of_dvd_mul_left (h ▸ Dvd.intro_left _ rfl)
  have hdvd2 : b.denominator.toInt ∣ a.denominator.toInt :=
    hb.symm.dvd_of_dvd_mul_left (h ▸ Dvd.intro_left _ rfl)
  have hden : a.denominator.toInt = b.denominator.toInt :=
    Int.dvd_antisymm a.positive.le b.positive.le hdvd1 hdvd2
  have hnum : a.numerator.toInt = b.numerator.toInt := by
    rw [hden] at h
    exact Int.eq_of_mul_eq_mul_right b.positive.ne' h
  cases a
  cases b
  congr
  · exact Big.ext_toInt hnum
  · exact Big.ext_toInt hden

/-! ## Decimals -/

/-- `Decimal`. -/
structure Decimal where
  coefficient : Big
  exponent : ℤ
  negativeZero : Bool
  deriving DecidableEq

/-- The loop over the top limb in `coefficient_digits`; a `uint32_t` has at most ten digits. -/
def topDigits : ℕ → ℕ → ℕ
  | 0, _ => 0
  | fuel + 1, top => if 10 ≤ top then topDigits fuel (top / 10) + 1 else 0

/-- `coefficient_digits`. -/
def coefficientDigits (number : PnBigInt) : ℕ :=
  if number.limbs = [] then 1
  else (number.limbs.length - 1) * 9 + 1 + topDigits 10 (number.limbs.getLastD 0)

/-- `coefficient_digit`. -/
def coefficientDigit (number : PnBigInt) (digits position : ℕ) : ℕ :=
  if digits ≤ position then 0
  else
    let offset := digits - position - 1
    number.limbs.getD (offset / 9) 0 / 10 ^ (offset % 9) % 10

/-- The digit loop of `decimal_compare` from `position` on, with `count` digits left. -/
def compareDigits (left right : PnBigInt) (leftDigits rightDigits : ℕ) : ℕ → ℕ → ℤ
  | 0, _ => 0
  | count + 1, position =>
    let ld := coefficientDigit left leftDigits position
    let rd := coefficientDigit right rightDigits position
    if ld ≠ rd then (if ld < rd then -1 else 1) * left.sign
    else compareDigits left right leftDigits rightDigits count (position + 1)

/-- `decimal_compare`. -/
def decimalCompare (a b : Decimal) : ℤ :=
  let left := a.coefficient.raw
  let right := b.coefficient.raw
  if left.sign ≠ right.sign then (if left.sign < right.sign then -1 else 1)
  else if left.sign = 0 then 0
  else
    let leftDigits := coefficientDigits left
    let rightDigits := coefficientDigits right
    let leftMagnitude := (leftDigits : ℤ) + a.exponent
    let rightMagnitude := (rightDigits : ℤ) + b.exponent
    if leftMagnitude ≠ rightMagnitude then
      (if leftMagnitude < rightMagnitude then -1 else 1) * left.sign
    else
      compareDigits left right leftDigits rightDigits (max leftDigits rightDigits) 0

/-! ## Values -/

/-- `ValueKind`. -/
inductive ValueKind where
  | path | duration | instant | rat | unit | nat | int | dec | str | bool | void | range | array
  | record | variant | map | set | bytes | iter | httpState | httpWriter | httpConnection
  deriving DecidableEq, Repr

/-- A runtime value.  Names are C strings without their terminator.  Maps hold their keys and values
in turn. -/
inductive Value where
  | path (data : Bytes)
  | duration (nanoseconds : Big)
  | instant (nanoseconds : Big)
  | rat (rational : Ratio)
  | unit
  | nat (integer : NatBig)
  | int (integer : Big)
  | dec (decimal : Decimal)
  | str (data : Bytes)
  | bool (boolean : Bool)
  | void
  | range (address : ℕ) (start stop : NatBig)
  | array (items : List Value)
  | record (name : Bytes) (names : List Bytes) (values : List Value)
  | variant (name : Bytes) (values : List Value)
  | map (items : List Value)
  | set (items : List Value)
  | bytes (data : Bytes)
  | iter (address : ℕ)
  | httpState (address : ℕ)
  | httpWriter (address : ℕ)
  | httpConnection (address : ℕ)

/-- `kind` of a value. -/
def Value.kind : Value → ValueKind
  | path _ => .path
  | duration _ => .duration
  | instant _ => .instant
  | rat _ => .rat
  | unit => .unit
  | nat _ => .nat
  | int _ => .int
  | dec _ => .dec
  | str _ => .str
  | bool _ => .bool
  | void => .void
  | range _ _ _ => .range
  | array _ => .array
  | record _ _ _ => .record
  | variant _ _ => .variant
  | map _ => .map
  | set _ => .set
  | bytes _ => .bytes
  | iter _ => .iter
  | httpState _ => .httpState
  | httpWriter _ => .httpWriter
  | httpConnection _ => .httpConnection

mutual

/-- `value_equal`. -/
def valueEqual : Value → Value → Bool
  | .nat a, .nat b => a.big.compare b.big == 0
  | .int a, .int b | .duration a, .duration b | .instant a, .instant b => a.compare b == 0
  | .rat a, .rat b =>
    a.numerator.compare b.numerator == 0 && a.denominator.compare b.denominator == 0
  | .dec a, .dec b => decimalCompare a b == 0
  | .str a, .str b | .bytes a, .bytes b | .path a, .path b | .bool a, .bool b => a == b
  | .unit, .unit | .void, .void => true
  | .array a, .array b | .set a, .set b | .map a, .map b => valuesEqual a b
  -- the field names of a record are not compared
  | .record a _ as, .record b _ bs | .variant a as, .variant b bs => a == b && valuesEqual as bs
  | .range a _ _, .range b _ _ | .iter a, .iter b | .httpState a, .httpState b
  | .httpWriter a, .httpWriter b | .httpConnection a, .httpConnection b => a == b
  | _, _ => false

/-- The element loops of `value_equal`, which ask for equal counts first. -/
def valuesEqual : List Value → List Value → Bool
  | [], [] => true
  | a :: as, b :: bs => valueEqual a b && valuesEqual as bs
  | _, _ => false

end

end Panackelty.Vm
