import Panackelty.Vm.BigintArith

/-!
# `vm/bigint.c`: division and decimal text

* `quotientDigit_eq`: the binary search of `pn_big_divmod` finds the quotient digit.
* `pnBigDivmod_spec`: the quotient truncates towards zero and the remainder has the sign of the
  dividend, that is `Int.tdiv` and `Int.tmod`.
* `pnBigString`: the sign and the limbs in decimal.
-/

namespace Panackelty.Vm

open Library.Digits List Nat PnBigInt Int

variable {bb v : PnBigInt}

/-! ## Long division -/

/-- `shift_base_add`. -/
def shiftBaseAdd (value : PnBigInt) (limb : ℕ) : PnBigInt :=
  if value.limbs = [] ∧ limb = 0 then value else ⟨1, limb :: value.limbs⟩

/-- The `while (lo <= hi)` search for the largest digit whose product does not exceed `r`.  The
interval halves in every round, so `fuel` bounds its length by a power of two. -/
def quotientDigit (bb r : PnBigInt) : ℕ → ℕ → ℕ → ℕ → ℕ
  | 0, _, _, best => best
  | fuel + 1, lo, hi, best =>
    if lo ≤ hi then
      let mid := lo + (hi - lo) / 2
      let probe := pnBigMulSmall bb mid
      if absCompare probe r ≤ 0 then
        if mid = base - 1 then mid else quotientDigit bb r fuel (mid + 1) hi mid
      else if mid = 0 then best
      else quotientDigit bb r fuel lo (mid - 1) best
    else best

/-- The position loop of `pn_big_divmod`, highest limb first: the quotient limbs and the remainder
of what has been read. -/
def divmodLoop (bb : PnBigInt) : List ℕ → List ℕ × PnBigInt
  | [] => ([], pnBigInit)
  | limb :: limbs =>
    let (q, r) := divmodLoop bb limbs
    let r := shiftBaseAdd r limb
    let best := quotientDigit bb r 30 0 (base - 1) 0
    (best :: q, if best = 0 then r else ⟨0, absSub r (pnBigMulSmall bb best)⟩)

/-- `pn_big_divmod`; `none` for a zero divisor. -/
def pnBigDivmod (a b : PnBigInt) : Option (PnBigInt × PnBigInt) :=
  if b.sign = 0 then none
  else
    let aa : PnBigInt := ⟨if a.limbs = [] then 0 else 1, a.limbs⟩
    let bb : PnBigInt := ⟨if b.limbs = [] then 0 else 1, b.limbs⟩
    if absCompare aa bb < 0 then some (pnBigInit, a)
    else
      let (q, r) := divmodLoop bb aa.limbs
      some (normalize ⟨if q = [] then 0 else a.sign * b.sign, q⟩,
        ⟨if r.limbs = [] then 0 else a.sign, r.limbs⟩)

theorem shiftBaseAdd_spec {limb : ℕ} (hv : Canonical base v.limbs) (hl : limb < base) :
    Canonical base (shiftBaseAdd v limb).limbs ∧
      (shiftBaseAdd v limb).magnitude = limb + base * v.magnitude := by
  unfold shiftBaseAdd
  split_ifs with h
  · refine ⟨hv, ?_⟩
    unfold magnitude
    rw [h.1, h.2]
    simp
  have hne : v.limbs ≠ [] ∨ limb ≠ 0 := by
    by_contra hcon
    rw [not_or, not_not, not_not] at hcon
    exact h hcon
  exact ⟨hv.cons hl hne, ofDigits_cons⟩

/-- The search keeps the quotient between `lo - 1` and `hi`, with `best` just below `lo`. -/
theorem quotientDigit_spec {r : PnBigInt} (hb : bb.Normal) (hpos : 0 < bb.magnitude)
    (hr : Canonical base r.limbs) : ∀ (fuel lo hi best : ℕ),
    r.magnitude / bb.magnitude ≤ hi → hi < base → lo ≤ r.magnitude / bb.magnitude + 1 →
    hi + 1 < 2 ^ fuel + lo → (best + 1 = lo ∨ (lo = 0 ∧ best = 0)) →
    quotientDigit bb r fuel lo hi best = r.magnitude / bb.magnitude
  | 0, lo, hi, best, hq, hhi, hlo, hfuel, hbest => by
    rw [pow_zero] at hfuel
    rw [quotientDigit]
    generalize r.magnitude / bb.magnitude = Q at *
    omega
  | fuel + 1, lo, hi, best, hq, hhi, hlo, hfuel, hbest => by
    rw [quotientDigit]
    by_cases hle : lo ≤ hi
    · have hmidB : lo + (hi - lo) / 2 ≤ base := by omega
      have hprobe := pnBigMulSmall_normal hb hmidB
      have hcmp := absCompare_eq_sign hprobe.canonical hr
      rw [magnitude_pnBigMulSmall hb hmidB] at hcmp
      -- the probe decides on which side of the middle the quotient lies
      have hiff : absCompare (pnBigMulSmall bb (lo + (hi - lo) / 2)) r ≤ 0 ↔
          lo + (hi - lo) / 2 ≤ r.magnitude / bb.magnitude := by
        rw [hcmp, sign_nonpos_iff, le_div_iff_mul_le hpos, mul_comm _ bb.magnitude]
        omega
      rw [if_pos hle]
      simp only [hiff]
      rw [pow_succ] at hfuel
      by_cases hmid : lo + (hi - lo) / 2 ≤ r.magnitude / bb.magnitude
      · rw [if_pos hmid]
        split_ifs with htop
        · omega
        · refine quotientDigit_spec hb hpos hr fuel _ hi _ hq hhi (by omega) ?_ (Or.inl rfl)
          omega
      · rw [if_neg hmid]
        split_ifs with hzero
        · exact absurd (hzero.trans_le (zero_le _)) hmid
        · refine quotientDigit_spec hb hpos hr fuel lo _ best (by omega) (by omega) hlo ?_ hbest
          omega
    · rw [if_neg hle]
      omega

theorem quotientDigit_eq {r : PnBigInt} (hb : bb.Normal) (hpos : 0 < bb.magnitude)
    (hr : Canonical base r.limbs) (hlt : r.magnitude < bb.magnitude * base) :
    quotientDigit bb r 30 0 (base - 1) 0 = r.magnitude / bb.magnitude := by
  have hq : r.magnitude / bb.magnitude < base := Nat.div_lt_of_lt_mul hlt
  exact quotientDigit_spec hb hpos hr 30 0 (base - 1) 0 (le_pred_of_lt hq) (by decide)
    (zero_le _) (by decide) (Or.inr ⟨rfl, rfl⟩)

theorem divmodLoop_spec (hb : bb.Normal) (hpos : 0 < bb.magnitude) :
    ∀ limbs : List ℕ, (∀ d ∈ limbs, d < base) →
      (∀ d ∈ (divmodLoop bb limbs).1, d < base) ∧ (divmodLoop bb limbs).1.length = limbs.length ∧
        Canonical base (divmodLoop bb limbs).2.limbs ∧
        ofDigits base (divmodLoop bb limbs).1 = ofDigits base limbs / bb.magnitude ∧
        (divmodLoop bb limbs).2.magnitude = ofDigits base limbs % bb.magnitude
  | [], _ => by
    refine ⟨by simp [divmodLoop], rfl, canonical_nil base, ?_, ?_⟩
    · simp [divmodLoop]
    · simp [divmodLoop, pnBigInit, magnitude]
  | limb :: limbs, hl => by
    have hlb : limb < base := hl limb mem_cons_self
    obtain ⟨ih1, ih2, ih3, ih4, ih5⟩ := divmodLoop_spec hb hpos limbs
      (fun d hd => hl d (mem_cons_of_mem _ hd))
    simp only [divmodLoop]
    generalize divmodLoop bb limbs = qr at ih1 ih2 ih3 ih4 ih5
    obtain ⟨q, r⟩ := qr
    simp only at ih1 ih2 ih3 ih4 ih5
    obtain ⟨hsc, hsm⟩ := shiftBaseAdd_spec ih3 hlb
    have hrlt : r.magnitude < bb.magnitude := by rw [ih5]; exact mod_lt _ hpos
    have hslt : (shiftBaseAdd r limb).magnitude < bb.magnitude * base := by
      rw [hsm]
      calc limb + base * r.magnitude < base + base * r.magnitude := by omega
        _ = (r.magnitude + 1) * base := by ring
        _ ≤ bb.magnitude * base := mul_le_mul_right _ hrlt
    have hdigit := quotientDigit_eq hb hpos hsc hslt
    have hqlt : (shiftBaseAdd r limb).magnitude / bb.magnitude < base := Nat.div_lt_of_lt_mul hslt
    simp only [hdigit]
    obtain ⟨hqval, hmod⟩ := @longDivision_step base bb.magnitude limb (ofDigits base limbs) hpos
    rw [← ih5, ← hsm, ← ofDigits_cons] at hqval hmod
    rw [← ih4, ← ofDigits_cons] at hqval
    refine ⟨forall_mem_cons.mpr ⟨hqlt, ih1⟩, by simp [ih2], ?_⟩
    generalize shiftBaseAdd r limb = s at *
    split_ifs with hz
    · refine ⟨hsc, hqval.symm, ?_⟩
      rw [hmod, mod_eq_of_lt ((div_eq_zero_iff_lt hpos).mp hz)]
    have hprod := pnBigMulSmall_normal hb hqlt.le
    have hprodm := magnitude_pnBigMulSmall hb hqlt.le
    have hle : (pnBigMulSmall bb (s.magnitude / bb.magnitude)).magnitude ≤ s.magnitude := by
      rw [hprodm]
      exact mul_div_le _ _
    obtain ⟨hc, hm⟩ := absSub_spec hsc hprod.canonical hle
    refine ⟨hc, hqval.symm, ?_⟩
    unfold magnitude at hm ⊢
    rw [hm]
    unfold magnitude at hmod hprodm
    rw [hmod, hprodm]
    exact (mod_eq_sub_mul_div).symm

theorem sign_abs_normal (hv : v.Normal) : (mk (if v.limbs = [] then 0 else 1) v.limbs).Normal := by
  refine ⟨hv.canonical, ?_⟩
  by_cases h : v.limbs = []
  · exact Or.inl ⟨h, if_pos h⟩
  · exact Or.inr ⟨h, Or.inl (if_neg h)⟩

theorem tdiv_sign_mul {s t : ℤ} (hs : s = 1 ∨ s = -1) (ht : t = 1 ∨ t = -1) (m n : ℕ) :
    (s * m).tdiv (t * n) = s * t * (m / n : ℕ) ∧ (s * m).tmod (t * n) = s * (m % n : ℕ) := by
  rcases hs with rfl | rfl <;> rcases ht with rfl | rfl <;>
    simp [Int.neg_tdiv, Int.tdiv_neg, Int.neg_tmod, Int.tmod_neg, Int.tdiv_eq_ediv_of_nonneg,
      tmod_eq_emod_of_nonneg]

theorem pnBigDivmod_spec {a b : PnBigInt} (ha : a.Normal) (hb : b.Normal) (h0 : b.toInt ≠ 0) :
    ∃ q r, pnBigDivmod a b = some (q, r) ∧ q.Normal ∧ r.Normal ∧
      q.toInt = a.toInt.tdiv b.toInt ∧ r.toInt = a.toInt.tmod b.toInt := by
  have hbs : b.sign ≠ 0 := fun h => h0 (hb.toInt_eq_zero_iff.mpr h)
  have hpos : 0 < b.magnitude := hb.magnitude_pos hbs
  have hcmp := absCompare_eq_sign (sign_abs_normal ha).canonical (sign_abs_normal hb).canonical
  unfold pnBigDivmod
  rw [if_neg hbs]
  by_cases hlt : a.magnitude < b.magnitude
  · -- a dividend of smaller magnitude is its own remainder
    have hneg : absCompare ⟨if a.limbs = [] then 0 else 1, a.limbs⟩
        ⟨if b.limbs = [] then 0 else 1, b.limbs⟩ < 0 := by
      rw [hcmp, sign_eq_neg_one_of_neg]
      · decide
      · exact sub_neg.mpr (cast_lt.mpr hlt)
    rw [if_pos hneg]
    have hquot : a.toInt.tdiv b.toInt = 0 := by
      rw [← natAbs_eq_zero, natAbs_tdiv, ha.natAbs_toInt, hb.natAbs_toInt]
      exact div_eq_of_lt hlt
    refine ⟨pnBigInit, a, rfl, pnBigInit_normal, ha, ?_, ?_⟩
    · rw [toInt_pnBigInit, hquot]
    · rw [tmod_def, hquot, mul_zero, sub_zero]
  · have hge : ¬ absCompare ⟨if a.limbs = [] then 0 else 1, a.limbs⟩
        ⟨if b.limbs = [] then 0 else 1, b.limbs⟩ < 0 := by
      rw [hcmp, not_lt, sign_nonneg_iff]
      exact sub_nonneg.mpr (cast_le.mpr (not_lt.mp hlt))
    rw [if_neg hge]
    have has : a.sign ≠ 0 := by
      intro h
      have := ha.magnitude_eq_zero_iff.mpr h
      omega
    have hsa := ha.sign_of_ne_zero has
    have hsb := hb.sign_of_ne_zero hbs
    have hsab : a.sign * b.sign = 1 ∨ a.sign * b.sign = -1 := by
      rcases hsa with h | h <;> rcases hsb with h' | h' <;> simp [h, h']
    obtain ⟨h1, h2, h3, h4, h5⟩ := divmodLoop_spec (sign_abs_normal hb) hpos a.limbs ha.canonical.lt
    generalize divmodLoop ⟨if b.limbs = [] then 0 else 1, b.limbs⟩ a.limbs = qr at h1 h2 h3 h4 h5
    obtain ⟨q, r⟩ := qr
    have hal : a.limbs ≠ [] := fun h => has (ha.sign_eq_zero_iff.mpr h)
    have hql : q ≠ [] := by
      rintro rfl
      exact hal (length_eq_zero_iff.mp h2.symm)
    have hdiv := tdiv_sign_mul hsa hsb a.magnitude b.magnitude
    refine ⟨_, _, rfl, normalize_normal h1 ?_, ?_, ?_, ?_⟩
    · simpa [hql] using hsab
    · refine ⟨h3, ?_⟩
      by_cases hr : r.limbs = []
      · exact Or.inl ⟨hr, if_pos hr⟩
      · exact Or.inr ⟨hr, by simpa [hr] using hsa⟩
    · rw [toInt_normalize]
      have hmag : (mk (if q = [] then 0 else a.sign * b.sign) q).magnitude =
          a.magnitude / b.magnitude := h4
      have hdiv1 : a.toInt.tdiv b.toInt = a.sign * b.sign * (a.magnitude / b.magnitude : ℕ) :=
        hdiv.1
      rw [hdiv1, toInt, hmag, if_neg hql]
    · have hmag : (mk (if r.limbs = [] then 0 else a.sign) r.limbs).magnitude =
          a.magnitude % b.magnitude := h5
      have hdiv2 : a.toInt.tmod b.toInt = a.sign * (a.magnitude % b.magnitude : ℕ) := hdiv.2
      rw [hdiv2, toInt, hmag]
      by_cases hr : r.limbs = []
      · have hz : a.magnitude % b.magnitude = 0 := by
          rw [← hmag]
          unfold magnitude
          simp [hr]
        simp [hz]
      · rw [if_neg hr]

/-! ## Division by one limb -/

/-- The loop of `pn_big_div_small`, highest limb first: the quotient limbs and the remainder. -/
def divSmallLoop (divisor : ℕ) : List ℕ → List ℕ × ℕ
  | [] => ([], 0)
  | limb :: limbs =>
    let (q, remainder) := divSmallLoop divisor limbs
    let current := u64 (remainder * base + limb)
    (u32 (current / divisor) :: q, current % divisor)

/-- `pn_big_div_small`: the number after the division, and the remainder. -/
def pnBigDivSmall (value : PnBigInt) (divisor : ℕ) : PnBigInt × ℕ :=
  let (q, remainder) := divSmallLoop divisor value.limbs
  (normalize { value with limbs := q }, u32 remainder)

/-- `pn_big_pow10`. -/
def pnBigPow10 (value : PnBigInt) : ℕ → PnBigInt
  | 0 => value
  | power + 1 => pnBigPow10 (pnBigMulSmall value 10) power

theorem divSmallLoop_spec {divisor : ℕ} (hd : 0 < divisor) (hB : divisor ≤ base) :
    ∀ limbs : List ℕ, (∀ d ∈ limbs, d < base) → (∀ d ∈ (divSmallLoop divisor limbs).1, d < base) ∧
        ofDigits base (divSmallLoop divisor limbs).1 = ofDigits base limbs / divisor ∧
        (divSmallLoop divisor limbs).2 = ofDigits base limbs % divisor
  | [], _ => by simp [divSmallLoop]
  | limb :: limbs, hl => by
    have hlb : limb < base := hl limb mem_cons_self
    obtain ⟨ih1, ih2, ih3⟩ := divSmallLoop_spec hd hB limbs
      (fun d hd => hl d (mem_cons_of_mem _ hd))
    simp only [divSmallLoop]
    generalize divSmallLoop divisor limbs = qr at ih1 ih2 ih3
    obtain ⟨q, r⟩ := qr
    simp only at ih1 ih2 ih3 ⊢
    have hr : r < divisor := by rw [ih3]; exact mod_lt _ hd
    have hcur : r * base + limb < divisor * base := by
      calc r * base + limb < (r + 1) * base := by rw [succ_mul]; omega
        _ ≤ divisor * base := mul_le_mul_right _ hr
    have h64 : u64 (r * base + limb) = r * base + limb := by
      refine u64_of_lt (hcur.trans_le ((mul_le_mul_right base hB).trans (by decide)))
    have hq : (r * base + limb) / divisor < base := Nat.div_lt_of_lt_mul hcur
    have h32 : u32 ((r * base + limb) / divisor) = (r * base + limb) / divisor :=
      u32_of_lt (hq.trans (by decide))
    obtain ⟨hdiv, hmod⟩ := @longDivision_step base divisor limb (ofDigits base limbs) hd
    rw [← ih3, ← ofDigits_cons, show limb + base * r = r * base + limb by ring] at hdiv hmod
    rw [← ih2, ← ofDigits_cons] at hdiv
    rw [h64, h32]
    exact ⟨forall_mem_cons.mpr ⟨hq, ih1⟩, hdiv.symm, hmod.symm⟩

/-- Division by one limb truncates the magnitude and keeps the sign. -/
theorem pnBigDivSmall_spec (hv : v.Normal) {divisor : ℕ} (hd : 0 < divisor) (hB : divisor ≤ base) :
    (pnBigDivSmall v divisor).1.Normal ∧ (pnBigDivSmall v divisor).1.toInt = v.toInt.tdiv divisor ∧
      (pnBigDivSmall v divisor).2 = v.magnitude % divisor := by
  obtain ⟨h1, h2, h3⟩ := divSmallLoop_spec hd hB v.limbs hv.canonical.lt
  unfold pnBigDivSmall
  generalize divSmallLoop divisor v.limbs = qr at h1 h2 h3
  obtain ⟨q, r⟩ := qr
  simp only at h1 h2 h3 ⊢
  have hrem : u32 r = v.magnitude % divisor := by
    rw [h3]
    exact u32_of_lt ((mod_lt _ hd).trans_le (hB.trans (by decide)))
  have hmag : (mk v.sign q).magnitude = v.magnitude / divisor := h2
  refine ⟨?_, ?_, hrem⟩
  · rcases hv.sign_eq with ⟨hl, hs⟩ | ⟨_, hs⟩
    · have hq : ofDigits base q = 0 := by rw [h2, hl]; simp
      have htrim : trim q = [] :=
        ((canonical_trim h1).ofDigits_eq_zero_iff one_lt_base).mp (by rw [ofDigits_trim, hq])
      exact ⟨canonical_trim h1, Or.inl ⟨htrim, by simp [normalize, htrim]⟩⟩
    · exact normalize_normal h1 hs
  · rw [toInt_normalize]
    rcases hv.sign_eq with ⟨_, hs⟩ | ⟨_, hs⟩
    · simp [toInt, hs]
    have hdiv := (tdiv_sign_mul hs (Or.inl rfl) v.magnitude divisor).1
    rw [one_mul, mul_one] at hdiv
    rw [toInt, toInt, hdiv, hmag]

theorem pnBigPow10_spec : ∀ (power : ℕ) {v : PnBigInt}, v.Normal →
    (pnBigPow10 v power).Normal ∧ (pnBigPow10 v power).toInt = v.toInt * 10 ^ power
  | 0, _, hv => ⟨hv, by simp [pnBigPow10]⟩
  | power + 1, v, hv => by
    obtain ⟨h1, h2⟩ := pnBigPow10_spec power (@pnBigMulSmall_normal 10 v hv (by decide))
    refine ⟨h1, ?_⟩
    rw [pnBigPow10, h2, toInt_pnBigMulSmall hv (by decide)]
    push_cast
    ring

/-! ## Decimal text -/

/-- `"%u"`. -/
def decimalText (n : ℕ) : List UInt8 :=
  if n = 0 then [48] else (digits 10 n).reverse.map fun d => UInt8.ofNat (48 + d)

/-- `"%09u"`. -/
def paddedText (n : ℕ) : List UInt8 :=
  replicate (9 - (decimalText n).length) 48 ++ decimalText n

/-- The text of the limbs, highest first; the top limb is written without padding. -/
def limbsText : List ℕ → List UInt8
  | [] => []
  | [top] => decimalText top
  | limb :: limbs => limbsText limbs ++ paddedText limb

/-- `pn_big_string`. -/
def pnBigString (value : PnBigInt) : List UInt8 :=
  if value.sign = 0 then [48]
  else (if value.sign < 0 then [45] else []) ++ limbsText value.limbs

theorem length_decimalText {n : ℕ} (h : n ≠ 0) :
    (decimalText n).length = (digits 10 n).length := by
  simp [decimalText, h]

end Panackelty.Vm
