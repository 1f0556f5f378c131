import Panackelty.Vm.Bigint
import Mathlib.Data.Int.GCD

/-!
# `vm/bigint.c`: addition, subtraction and multiplication

The limb loops of `abs_add`, `abs_sub` and `pn_big_mul`, each with one lemma that says which number
its output spells and that every limb is below `base`.

* `pnBigAdd_spec`, `pnBigSub_spec`, `pnBigMul_spec`: the signed operations are exact on integers
  and return normalised numbers.
-/

namespace Panackelty.Vm

open Library.Digits List Nat PnBigInt

variable {a b : PnBigInt} {limb : ℕ}

theorem ofDigits_headD_tail (b : ℕ) (ds : List ℕ) :
    ds.headD 0 + b * ofDigits b ds.tail = ofDigits b ds := by
  cases ds with
  | nil => simp
  | cons d ds => rw [ofDigits_cons]; rfl

theorem headD_lt {b : ℕ} (hb : 0 < b) {ds : List ℕ} (h : ∀ d ∈ ds, d < b) : ds.headD 0 < b := by
  cases ds with
  | nil => exact hb
  | cons d ds => exact h d mem_cons_self

theorem lt_of_mem_tail {b : ℕ} {ds : List ℕ} (h : ∀ d ∈ ds, d < b) : ∀ d ∈ ds.tail, d < b :=
  fun d hd => h d (mem_of_mem_tail hd)

/-! ## Addition and subtraction of magnitudes -/

/-- The loop of `abs_add`: a missing limb reads as zero, and the last cell takes the carry. -/
def absAddLoop : ℕ → ℕ → List ℕ → List ℕ → List ℕ
  | 0, carry, _, _ => [u32 carry]
  | n + 1, carry, a, b =>
    let sum := u64 (carry + a.headD 0 + b.headD 0)
    u32 (sum % base) :: absAddLoop n (sum / base) a.tail b.tail

/-- `abs_add`, before its caller sets the sign. -/
def absAdd (a b : PnBigInt) : List ℕ :=
  trim (absAddLoop (max a.limbs.length b.limbs.length) 0 a.limbs b.limbs)

theorem absAddLoop_spec : ∀ (n carry : ℕ) (a b : List ℕ), carry ≤ 1 →
    a.length ≤ n → b.length ≤ n → (∀ d ∈ a, d < base) → (∀ d ∈ b, d < base) →
    (∀ d ∈ absAddLoop n carry a b, d < base) ∧ ofDigits base (absAddLoop n carry a b) =
        ofDigits base a + ofDigits base b + carry
  | 0, carry, a, b, hc, ha, hb, _, _ => by
    have ha0 : a = [] := length_eq_zero_iff.mp (by omega)
    have hb0 : b = [] := length_eq_zero_iff.mp (by omega)
    have hu : u32 carry = carry := u32_of_lt (by omega)
    subst ha0 hb0
    refine ⟨fun d hd => ?_, by simp [absAddLoop, hu]⟩
    rw [absAddLoop, hu, mem_singleton] at hd
    unfold base
    omega
  | n + 1, carry, a, b, hc, ha, hb, hda, hdb => by
    have h1 : a.headD 0 < base := headD_lt (by decide) hda
    have h2 : b.headD 0 < base := headD_lt (by decide) hdb
    have hsum : u64 (carry + a.headD 0 + b.headD 0) = carry + a.headD 0 + b.headD 0 := by
      refine u64_of_lt ?_
      have : 1 + base + base < 2 ^ 64 := by decide
      omega
    have hq : (carry + a.headD 0 + b.headD 0) / base ≤ 1 := by
      rw [← Nat.lt_succ_iff, Nat.div_lt_iff_lt_mul (by decide)]
      omega
    have ih := absAddLoop_spec n ((carry + a.headD 0 + b.headD 0) / base) a.tail b.tail hq
      (by rw [length_tail]; omega) (by rw [length_tail]; omega)
      (lt_of_mem_tail hda) (lt_of_mem_tail hdb)
    simp only [absAddLoop, hsum, u32_mod_base]
    obtain ⟨hlt, hval⟩ := ofDigits_carry (by decide) ih.1 ih.2
    refine ⟨hlt, hval.trans ?_⟩
    rw [← ofDigits_headD_tail base a, ← ofDigits_headD_tail base b]
    ring

theorem absAdd_spec (ha : Canonical base a.limbs) (hb : Canonical base b.limbs) :
    Canonical base (absAdd a b) ∧ ofDigits base (absAdd a b) = a.magnitude + b.magnitude := by
  have h := absAddLoop_spec (max a.limbs.length b.limbs.length) 0 a.limbs b.limbs (by omega)
    (le_max_left _ _) (le_max_right _ _) ha.lt hb.lt
  exact ⟨canonical_trim h.1, (ofDigits_trim base _).trans h.2⟩

/-- The loop of `abs_sub`: `diff` is a signed 64-bit difference, and a borrow adds the base. -/
def absSubLoop : ℤ → List ℕ → List ℕ → List ℕ
  | _, [], _ => []
  | borrow, limb :: limbs, b =>
    let diff : ℤ := limb - b.headD 0 - borrow
    if diff < 0 then u32 (diff + base).toNat :: absSubLoop 1 limbs b.tail
    else u32 diff.toNat :: absSubLoop 0 limbs b.tail

/-- `abs_sub`, before its caller sets the sign. -/
def absSub (a b : PnBigInt) : List ℕ :=
  trim (absSubLoop 0 a.limbs b.limbs)

/-- One step of the loop: the stored digit and the next borrow balance the difference. -/
theorem absSubLoop_cons (limbs : List ℕ) {b : List ℕ} {borrow : ℤ} (hbor : borrow = 0 ∨ borrow = 1)
    (hl : limb < base) (hb : ∀ d ∈ b, d < base) : ∃ (digit : ℕ) (borrow' : ℤ),
      absSubLoop borrow (limb :: limbs) b = digit :: absSubLoop borrow' limbs b.tail ∧
      digit < base ∧ (borrow' = 0 ∨ borrow' = 1) ∧
      (digit : ℤ) = limb - b.headD 0 - borrow + base * borrow' := by
  have he : b.headD 0 < base := headD_lt (by decide) hb
  have hB : base = 1000000000 := rfl
  rw [absSubLoop]
  generalize b.headD 0 = e at he ⊢
  by_cases hneg : (limb : ℤ) - e - borrow < 0
  · have hu : u32 ((limb : ℤ) - e - borrow + base).toNat =
        ((limb : ℤ) - e - borrow + base).toNat := u32_of_lt (by omega)
    refine ⟨((limb : ℤ) - e - borrow + base).toNat, 1, ?_, ?_, Or.inr rfl, ?_⟩
    · rw [if_pos hneg, hu]
    · omega
    · omega
  · have hu : u32 ((limb : ℤ) - e - borrow).toNat = ((limb : ℤ) - e - borrow).toNat :=
      u32_of_lt (by omega)
    refine ⟨((limb : ℤ) - e - borrow).toNat, 0, ?_, ?_, Or.inl rfl, ?_⟩
    · rw [if_neg hneg, hu]
    · omega
    · omega

theorem absSubLoop_spec : ∀ (a b : List ℕ) (borrow : ℤ), (borrow = 0 ∨ borrow = 1) →
    (∀ d ∈ a, d < base) → (∀ d ∈ b, d < base) →
    ((ofDigits base b : ℕ) : ℤ) + borrow ≤ (ofDigits base a : ℕ) →
    (∀ d ∈ absSubLoop borrow a b, d < base) ∧
      ((ofDigits base (absSubLoop borrow a b) : ℕ) : ℤ) =
        (ofDigits base a : ℕ) - (ofDigits base b : ℕ) - borrow
  | [], b, borrow, hbor, _, _, hle => by
    rw [ofDigits_nil] at hle ⊢
    simp only [absSubLoop, not_mem_nil, false_imp_iff, implies_true, true_and,
      ofDigits_nil]
    omega
  | limb :: limbs, b, borrow, hbor, hda, hdb, hle => by
    obtain ⟨digit, borrow', hstep, hdig, hbor', heq⟩ :=
      absSubLoop_cons limbs hbor (hda limb mem_cons_self) hdb
    have hlimb : limb < base := hda limb mem_cons_self
    have he : b.headD 0 < base := headD_lt (by decide) hdb
    have ih := absSubLoop_spec limbs b.tail borrow' hbor'
      (fun d hd => hda d (mem_cons_of_mem _ hd)) (lt_of_mem_tail hdb)
    rw [hstep, ofDigits_cons, ofDigits_cons]
    rw [ofDigits_cons, ← ofDigits_headD_tail base b] at hle
    rw [← ofDigits_headD_tail base b]
    generalize ofDigits base limbs = x at hle ih ⊢
    generalize ofDigits base b.tail = y at hle ih ⊢
    generalize b.headD 0 = e at hle heq he ⊢
    -- the higher limbs still cover the higher limbs of `b` and the borrow
    have hrest : (y : ℤ) + borrow' ≤ x := by
      unfold base at hle heq hlimb he hdig
      omega
    obtain ⟨ih1, ih2⟩ := ih hrest
    refine ⟨forall_mem_cons.mpr ⟨hdig, ih1⟩, ?_⟩
    rw [cast_add, cast_mul, ih2, heq]
    push_cast
    ring

theorem absSub_spec (ha : Canonical base a.limbs) (hb : Canonical base b.limbs)
    (hle : b.magnitude ≤ a.magnitude) :
    Canonical base (absSub a b) ∧ ofDigits base (absSub a b) = a.magnitude - b.magnitude := by
  have h := absSubLoop_spec a.limbs b.limbs 0 (Or.inl rfl) ha.lt hb.lt (by
    rw [add_zero]
    exact_mod_cast hle)
  refine ⟨canonical_trim h.1, ?_⟩
  unfold absSub
  rw [ofDigits_trim]
  unfold magnitude at *
  omega

/-! ## Signed addition and subtraction -/

/-- `pn_big_add`. -/
def pnBigAdd (a b : PnBigInt) : PnBigInt :=
  if a.sign = 0 then b
  else if b.sign = 0 then a
  else if a.sign = b.sign then ⟨a.sign, absAdd a b⟩
  else
    let cmp := absCompare a b
    if cmp = 0 then pnBigInit
    else if cmp > 0 then ⟨a.sign, absSub a b⟩
    else ⟨b.sign, absSub b a⟩

/-- `pn_big_sub`: the subtrahend is viewed with its sign flipped. -/
def pnBigSub (a b : PnBigInt) : PnBigInt :=
  pnBigAdd a { b with sign := -b.sign }

/-- A canonical list of limbs with a positive value, under a proper sign, is normalised. -/
theorem normal_of_canonical {s : ℤ} {limbs : List ℕ} (h : Canonical base limbs)
    (hs : s = 1 ∨ s = -1) (hpos : ofDigits base limbs ≠ 0) : (mk s limbs).Normal :=
  ⟨h, Or.inr ⟨fun h0 => hpos ((h.ofDigits_eq_zero_iff one_lt_base).mpr h0), hs⟩⟩

theorem absSub_signed {s : ℤ} (ha : a.Normal) (hb : b.Normal) (hs : s = 1 ∨ s = -1)
    (hlt : b.magnitude < a.magnitude) : (mk s (absSub a b)).Normal ∧
      (mk s (absSub a b)).toInt = s * (a.magnitude - b.magnitude) := by
  obtain ⟨hc, hv⟩ := absSub_spec ha.canonical hb.canonical hlt.le
  refine ⟨normal_of_canonical hc hs (by omega), ?_⟩
  have hmag : (mk s (absSub a b)).magnitude = a.magnitude - b.magnitude := hv
  rw [toInt, hmag, cast_sub hlt.le]

theorem pnBigAdd_spec (ha : a.Normal) (hb : b.Normal) :
    (pnBigAdd a b).Normal ∧ (pnBigAdd a b).toInt = a.toInt + b.toInt := by
  unfold pnBigAdd
  by_cases ha0 : a.sign = 0
  · simp [ha0, hb, ha.toInt_eq_zero_iff.mpr ha0]
  by_cases hb0 : b.sign = 0
  · simp [ha0, hb0, ha, hb.toInt_eq_zero_iff.mpr hb0]
  have hsa := ha.sign_of_ne_zero ha0
  have hsb := hb.sign_of_ne_zero hb0
  have hpa := ha.magnitude_pos ha0
  by_cases hs : a.sign = b.sign
  · obtain ⟨hc, hv⟩ := absAdd_spec ha.canonical hb.canonical
    simp only [hb0, hs, if_false, if_true]
    refine ⟨normal_of_canonical hc hsb (by omega), ?_⟩
    unfold toInt magnitude
    rw [hv, hs]
    push_cast [magnitude]
    ring
  have hcmp := absCompare_eq_sign ha.canonical hb.canonical
  have hopp : b.sign = -a.sign := by omega
  simp only [ha0, hb0, hs, if_false]
  rcases lt_trichotomy a.magnitude b.magnitude with hlt | heq | hgt
  · -- the second magnitude is larger: subtract the first from it and keep its sign
    obtain ⟨hnorm, hval⟩ := absSub_signed hb ha hsb hlt
    have hcmp' : absCompare a b = -1 := by
      rw [hcmp, Int.sign_eq_neg_one_of_neg]
      omega
    rw [hcmp', if_neg (by decide), if_neg (by decide)]
    refine ⟨hnorm, hval.trans ?_⟩
    unfold toInt
    rw [hopp]
    ring
  · have hcmp' : absCompare a b = 0 := by
      rw [hcmp, heq, sub_self]
      rfl
    rw [hcmp', if_pos rfl]
    refine ⟨pnBigInit_normal, ?_⟩
    rw [toInt_pnBigInit]
    unfold toInt
    rw [heq, hopp]
    ring
  · obtain ⟨hnorm, hval⟩ := absSub_signed ha hb hsa hgt
    have hcmp' : absCompare a b = 1 := by
      rw [hcmp, Int.sign_eq_one_of_pos]
      omega
    rw [hcmp', if_neg (by decide), if_pos (by decide)]
    refine ⟨hnorm, hval.trans ?_⟩
    unfold toInt
    rw [hopp]
    ring

theorem neg_sign_normal (hb : b.Normal) : ({ b with sign := -b.sign } : PnBigInt).Normal := by
  refine ⟨hb.canonical, ?_⟩
  rcases hb.sign_eq with ⟨hl, hs⟩ | ⟨hl, hs⟩
  · exact Or.inl ⟨hl, by simp [hs]⟩
  · refine Or.inr ⟨hl, ?_⟩
    rcases hs with hs | hs <;> simp [hs]

theorem toInt_neg_sign (b : PnBigInt) :
    ({ b with sign := -b.sign } : PnBigInt).toInt = -b.toInt := by
  unfold toInt magnitude
  ring

theorem pnBigSub_spec (ha : a.Normal) (hb : b.Normal) :
    (pnBigSub a b).Normal ∧ (pnBigSub a b).toInt = a.toInt - b.toInt := by
  have h := pnBigAdd_spec ha (neg_sign_normal hb)
  refine ⟨h.1, ?_⟩
  unfold pnBigSub
  rw [h.2, toInt_neg_sign]
  ring

/-! ## Multiplication -/

/-- `while (carry)` in `pn_big_mul`: the carry runs up the remaining cells. -/
def carryLoop : ℕ → List ℕ → List ℕ
  | _, [] => []
  | carry, cell :: out =>
    if carry = 0 then cell :: out
    else
      let current := u64 (cell + carry)
      u32 (current % base) :: carryLoop (current / base) out

/-- The inner loop of `pn_big_mul`: add `limb` times the limbs of `b` to the cells from the current
position on. -/
def mulRow (limb : ℕ) : ℕ → List ℕ → List ℕ → List ℕ
  | carry, [], out => carryLoop carry out
  | _, _ :: _, [] => []
  | carry, digit :: b, cell :: out =>
    let current := u64 (cell + limb * digit + carry)
    u32 (current % base) :: mulRow limb (current / base) b out

/-- The outer loop of `pn_big_mul`: after each row the lowest cell is final. -/
def mulLoop (b : List ℕ) : List ℕ → List ℕ → List ℕ
  | [], out => out
  | limb :: a, out =>
    match mulRow limb 0 b out with
    | [] => []
    | cell :: rest => cell :: mulLoop b a rest

/-- `pn_big_mul`. -/
def pnBigMul (a b : PnBigInt) : PnBigInt :=
  if a.sign = 0 ∨ b.sign = 0 then pnBigInit
  else normalize ⟨a.sign * b.sign,
    mulLoop b.limbs a.limbs (replicate (a.limbs.length + b.limbs.length) 0)⟩

theorem carryLoop_spec : ∀ (out : List ℕ) (carry : ℕ), carry < base → (∀ d ∈ out, d < base) →
    ofDigits base out + carry < base ^ out.length →
    (carryLoop carry out).length = out.length ∧ (∀ d ∈ carryLoop carry out, d < base) ∧
      ofDigits base (carryLoop carry out) = ofDigits base out + carry
  | [], carry, _, _, hlt => by
    simp only [ofDigits_nil, length_nil, pow_zero] at hlt
    simp only [carryLoop, not_mem_nil, false_imp_iff, implies_true, true_and, ofDigits_nil]
    omega
  | cell :: out, carry, hc, hd, hlt => by
    by_cases h : carry = 0
    · simp only [carryLoop, h, if_true, add_zero, and_true, true_and]
      exact hd
    have hcb : cell < base := hd cell mem_cons_self
    have hsum : u64 (cell + carry) = cell + carry := by
      refine u64_of_lt ?_
      have : base + base < 2 ^ 64 := by decide
      omega
    have hq : (cell + carry) / base < base := by
      rw [div_lt_iff_lt_mul (by decide)]
      unfold base at *
      omega
    rw [ofDigits_cons] at hlt
    have hlt' : ofDigits base out + (cell + carry) / base < base ^ out.length :=
      carry_lt_pow (lt_of_eq_of_lt (by ring) hlt)
    obtain ⟨ih1, ih2, ih3⟩ := carryLoop_spec out ((cell + carry) / base) hq
      (fun d hx => hd d (mem_cons_of_mem _ hx)) hlt'
    simp only [carryLoop, h, if_false, hsum, u32_mod_base, length_cons, ih1, true_and]
    obtain ⟨hall, hval⟩ := ofDigits_carry (by decide) ih2 ih3
    refine ⟨hall, hval.trans ?_⟩
    rw [ofDigits_cons]
    ring

/-- One cell of a row: the product, the cell and the carry together stay below `base ^ 2`. -/
theorem cell_add_mul_lt {cell digit carry : ℕ} (hc : cell < base) (hl : limb < base)
    (hd : digit < base) (hk : carry < base) : cell + limb * digit + carry < base * base := by
  have h : limb * digit ≤ (base - 1) * (base - 1) := Nat.mul_le_mul (by omega) (by omega)
  unfold base at *
  omega

theorem mulRow_spec (hl : limb < base) : ∀ (b out : List ℕ) (carry : ℕ), carry < base →
    (∀ d ∈ b, d < base) → (∀ d ∈ out, d < base) →
    ofDigits base out + limb * ofDigits base b + carry < base ^ out.length →
    b.length ≤ out.length →
    (mulRow limb carry b out).length = out.length ∧ (∀ d ∈ mulRow limb carry b out, d < base) ∧
      ofDigits base (mulRow limb carry b out) =
        ofDigits base out + limb * ofDigits base b + carry
  | [], out, carry, hc, _, hd, hlt, _ => by
    rw [ofDigits_nil, mul_zero, add_zero] at hlt ⊢
    exact carryLoop_spec out carry hc hd hlt
  | digit :: b, [], carry, _, _, _, _, hlen => by simp at hlen
  | digit :: b, cell :: out, carry, hc, hb, hd, hlt, hlen => by
    have hcell : cell < base := hd cell mem_cons_self
    have hdig : digit < base := hb digit mem_cons_self
    have hbound := cell_add_mul_lt hcell hl hdig hc
    have hsum : u64 (cell + limb * digit + carry) = cell + limb * digit + carry :=
      u64_of_lt (hbound.trans (by decide))
    have hq : (cell + limb * digit + carry) / base < base := Nat.div_lt_of_lt_mul hbound
    rw [ofDigits_cons, ofDigits_cons] at hlt
    have hlt' : ofDigits base out + limb * ofDigits base b +
        (cell + limb * digit + carry) / base < base ^ out.length :=
      carry_lt_pow (lt_of_eq_of_lt (by ring) hlt)
    obtain ⟨ih1, ih2, ih3⟩ := mulRow_spec hl b out ((cell + limb * digit + carry) / base) hq
      (fun d hx => hb d (mem_cons_of_mem _ hx))
      (fun d hx => hd d (mem_cons_of_mem _ hx)) hlt' (by simpa using hlen)
    simp only [mulRow, hsum, u32_mod_base, length_cons, ih1, true_and]
    obtain ⟨hall, hval⟩ := ofDigits_carry (by decide) ih2 ih3
    refine ⟨hall, hval.trans ?_⟩
    rw [ofDigits_cons, ofDigits_cons]
    ring

theorem mulLoop_spec {b : List ℕ} (hb : ∀ d ∈ b, d < base) : ∀ (a out : List ℕ),
    (∀ d ∈ a, d < base) → (∀ d ∈ out, d < base) →
    ofDigits base out + ofDigits base a * ofDigits base b < base ^ out.length →
    a.length + b.length ≤ out.length →
    (∀ d ∈ mulLoop b a out, d < base) ∧ ofDigits base (mulLoop b a out) =
        ofDigits base out + ofDigits base a * ofDigits base b
  | [], out, _, hd, _, _ => by
    simp only [mulLoop, ofDigits_nil, zero_mul, add_zero, and_true]
    exact hd
  | limb :: a, out, ha, hd, hlt, hlen => by
    have hl : limb < base := ha limb mem_cons_self
    rw [ofDigits_cons] at hlt
    rw [length_cons] at hlen
    have hrow : ofDigits base out + limb * ofDigits base b + 0 < base ^ out.length := by
      nlinarith [zero_le (base * ofDigits base a * ofDigits base b)]
    obtain ⟨h1, h2, h3⟩ := mulRow_spec hl b out 0 (by decide) hb hd hrow (by omega)
    rw [mulLoop]
    rcases hr : mulRow limb 0 b out with _ | ⟨cell, rest⟩
    · rw [hr] at h1
      simp only [length_nil] at h1
      omega
    rw [hr] at h1 h2 h3
    rw [length_cons] at h1
    rw [ofDigits_cons, add_zero] at h3
    have hlt' : ofDigits base rest + ofDigits base a * ofDigits base b < base ^ rest.length := by
      rw [← h1, pow_succ] at hlt
      by_contra hcon
      nlinarith
    obtain ⟨ih1, ih2⟩ := mulLoop_spec hb a rest (fun d hx => ha d (mem_cons_of_mem _ hx))
      (fun d hx => h2 d (mem_cons_of_mem _ hx)) hlt' (by omega)
    refine ⟨forall_mem_cons.mpr ⟨h2 _ mem_cons_self, ih1⟩, ?_⟩
    rw [ofDigits_cons, ofDigits_cons, ih2]
    calc cell + base * (ofDigits base rest + ofDigits base a * ofDigits base b)
        = (cell + base * ofDigits base rest) + base * ofDigits base a * ofDigits base b := by ring
      _ = _ := by rw [h3]; ring

theorem pnBigMul_spec (ha : a.Normal) (hb : b.Normal) :
    (pnBigMul a b).Normal ∧ (pnBigMul a b).toInt = a.toInt * b.toInt := by
  unfold pnBigMul
  split_ifs with h0
  · refine ⟨pnBigInit_normal, ?_⟩
    rw [toInt_pnBigInit]
    rcases h0 with h0 | h0
    · rw [ha.toInt_eq_zero_iff.mpr h0, zero_mul]
    · rw [hb.toInt_eq_zero_iff.mpr h0, mul_zero]
  · rw [not_or] at h0
    have hzero : ofDigits base (replicate (a.limbs.length + b.limbs.length) 0) = 0 :=
      ofDigits_replicate_zero
    have hspec := mulLoop_spec hb.canonical.lt a.limbs
      (replicate (a.limbs.length + b.limbs.length) 0) ha.canonical.lt
      (fun d hd => by rw [eq_of_mem_replicate hd]; decide) (by
        rw [hzero, zero_add, length_replicate, pow_add]
        exact mul_lt_mul'' (ofDigits_lt_base_pow_length one_lt_base ha.canonical.lt)
          (ofDigits_lt_base_pow_length one_lt_base hb.canonical.lt))
      (by rw [length_replicate])
    have hsign : a.sign * b.sign = 1 ∨ a.sign * b.sign = -1 := by
      rcases ha.sign_eq with ⟨_, h⟩ | ⟨_, h | h⟩ <;> rcases hb.sign_eq with ⟨_, h'⟩ |
          ⟨_, h' | h'⟩ <;>
        simp_all
    refine ⟨normalize_normal hspec.1 hsign, ?_⟩
    rw [toInt_normalize]
    unfold toInt magnitude
    rw [hspec.2, hzero, zero_add]
    push_cast
    ring

end Panackelty.Vm
