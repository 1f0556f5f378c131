import Panackelty.Library.Digits

/-!
# `vm/bigint.c`: the representation and the small operations

A `PnBigInt` is a sign and an array of base-`10^9` limbs, least significant limb first.  The
functions are written over limb lists; where the C code works in `uint64_t` or stores a `uint32_t`
the wrap-around is kept (`u64`, `u32`) and the lemmas show that it never happens.  Allocation is
assumed to succeed, so the `bool` results that only report its failure are left out.

* `PnBigInt.Normal`: limbs below `base`, no zero limb at the top, sign zero exactly for zero.
* `PnBigInt.Normal.ext`: a normalised big integer is determined by its value.
* `pnBigCompare_eq_sign`: comparison is the sign of the difference.
* `pnBigMulSmall`, `pnBigAddSmall`, `pnBigFromU64`, `pnBigFromBytes`, `pnBigFromDigits`: the
  values they build.
-/

namespace Panackelty.Vm

open Library.Digits List Nat

/-- The base of limbs. -/
def base : ℕ := 1000000000

/-- A value stored in a `uint32_t`. -/
def u32 (n : ℕ) : ℕ := n % 2 ^ 32

/-- A value held in a `uint64_t`. -/
def u64 (n : ℕ) : ℕ := n % 2 ^ 64

theorem one_lt_base : 1 < base := by decide

theorem u32_of_lt {n : ℕ} (h : n < 2 ^ 32) : u32 n = n := mod_eq_of_lt h

theorem u64_of_lt {n : ℕ} (h : n < 2 ^ 64) : u64 n = n := mod_eq_of_lt h

theorem u32_mod_base (n : ℕ) : u32 (n % base) = n % base := by
  refine u32_of_lt ((mod_lt n (by decide)).trans (by decide))

/-- `PnBigInt`. -/
structure PnBigInt where
  sign : ℤ
  limbs : List ℕ
  deriving DecidableEq, Repr

namespace PnBigInt

/-- The magnitude that the limbs spell. -/
def magnitude (v : PnBigInt) : ℕ := ofDigits base v.limbs

/-- The integer that a big integer denotes. -/
def toInt (v : PnBigInt) : ℤ := v.sign * v.magnitude

/-- The normal form that every operation returns. -/
structure Normal (v : PnBigInt) : Prop where
  canonical : Canonical base v.limbs
  sign_eq : (v.limbs = [] ∧ v.sign = 0) ∨ (v.limbs ≠ [] ∧ (v.sign = 1 ∨ v.sign = -1))

variable {v w : PnBigInt}

theorem Normal.sign_of_ne_zero (h : v.Normal) (h0 : v.sign ≠ 0) : v.sign = 1 ∨ v.sign = -1 :=
  (h.sign_eq.resolve_left fun hzero => h0 hzero.2).2

theorem Normal.sign_eq_zero_iff (h : v.Normal) : v.sign = 0 ↔ v.limbs = [] := by
  rcases h.sign_eq with ⟨hl, hs⟩ | ⟨hl, hs⟩
  · simp [hl, hs]
  constructor
  · intro h0
    omega
  · intro h0
    exact absurd h0 hl

theorem Normal.magnitude_eq_zero_iff (h : v.Normal) : v.magnitude = 0 ↔ v.sign = 0 := by
  rw [h.sign_eq_zero_iff]
  exact h.canonical.ofDigits_eq_zero_iff one_lt_base

theorem Normal.magnitude_pos (h : v.Normal) (hs : v.sign ≠ 0) : 0 < v.magnitude :=
  pos_of_ne_zero fun h0 => hs (h.magnitude_eq_zero_iff.mp h0)

theorem Normal.sign_toInt (h : v.Normal) : v.toInt.sign = v.sign := by
  unfold toInt
  rcases h.sign_eq with ⟨hl, hs⟩ | ⟨hl, hs⟩
  · simp [hs]
  have hpos : (0 : ℤ) < v.magnitude := by
    exact_mod_cast h.magnitude_pos (by omega)
  rw [Int.sign_mul, Int.sign_eq_one_of_pos hpos, mul_one]
  rcases hs with hs | hs <;> rw [hs] <;> rfl

theorem Normal.natAbs_toInt (h : v.Normal) : v.toInt.natAbs = v.magnitude := by
  unfold toInt
  rcases h.sign_eq with ⟨hl, hs⟩ | ⟨hl, hs | hs⟩
  · have h0 : v.magnitude = 0 := h.magnitude_eq_zero_iff.mpr hs
    simp [h0]
  · simp [hs]
  · simp [hs]

theorem Normal.toInt_eq_zero_iff (h : v.Normal) : v.toInt = 0 ↔ v.sign = 0 := by
  rw [← Int.natAbs_eq_zero, h.natAbs_toInt, h.magnitude_eq_zero_iff]

theorem Normal.ext (hv : v.Normal) (hw : w.Normal) (h : v.toInt = w.toInt) : v = w := by
  have hs : v.sign = w.sign := by rw [← hv.sign_toInt, h, hw.sign_toInt]
  have hm : v.magnitude = w.magnitude := by rw [← hv.natAbs_toInt, h, hw.natAbs_toInt]
  have hl : v.limbs = w.limbs := hv.canonical.ext hw.canonical one_lt_base hm
  cases v
  cases w
  simp_all

end PnBigInt

/-- `pn_big_init`. -/
def pnBigInit : PnBigInt := ⟨0, []⟩

theorem pnBigInit_normal : pnBigInit.Normal :=
  ⟨canonical_nil _, Or.inl ⟨rfl, rfl⟩⟩

@[simp] theorem toInt_pnBigInit : pnBigInit.toInt = 0 := rfl

/-- `normalize`: drop the zero limbs at the top, and clear the sign of zero. -/
def normalize (value : PnBigInt) : PnBigInt :=
  let limbs := trim value.limbs
  ⟨if limbs = [] then 0 else value.sign, limbs⟩

/-- Limbs below the base and a proper sign are all that `normalize` needs. -/
theorem normalize_normal {v : PnBigInt} (h : ∀ d ∈ v.limbs, d < base)
    (hs : v.sign = 1 ∨ v.sign = -1) : (normalize v).Normal := by
  refine ⟨canonical_trim h, ?_⟩
  by_cases ht : trim v.limbs = []
  · exact Or.inl ⟨ht, by simp [normalize, ht]⟩
  · exact Or.inr ⟨ht, by simpa [normalize, ht] using hs⟩

theorem toInt_normalize (v : PnBigInt) : (normalize v).toInt = v.toInt := by
  have hm : (normalize v).magnitude = v.magnitude := ofDigits_trim base v.limbs
  unfold PnBigInt.toInt
  rw [hm]
  by_cases ht : trim v.limbs = []
  · have h0 : v.magnitude = 0 := by
      rw [← hm]
      unfold PnBigInt.magnitude
      simp [normalize, ht]
    simp [h0]
  · simp [normalize, ht]

/-- `pn_big_from_u64`. -/
def pnBigFromU64 (value : ℕ) : PnBigInt :=
  ⟨if value = 0 then 0 else 1, digits base value⟩

theorem pnBigFromU64_normal (n : ℕ) : (pnBigFromU64 n).Normal := by
  refine ⟨canonical_digits one_lt_base n, ?_⟩
  by_cases h : n = 0
  · exact Or.inl ⟨by simp [pnBigFromU64, h], by simp [pnBigFromU64, h]⟩
  · have hne : digits base n ≠ [] := digits_ne_nil_iff_ne_zero.mpr h
    exact Or.inr ⟨hne, Or.inl (by simp [pnBigFromU64, h])⟩

theorem magnitude_pnBigFromU64 (n : ℕ) : (pnBigFromU64 n).magnitude = n :=
  ofDigits_digits base n

@[simp] theorem toInt_pnBigFromU64 (n : ℕ) : (pnBigFromU64 n).toInt = n := by
  unfold PnBigInt.toInt
  rw [magnitude_pnBigFromU64]
  by_cases h : n = 0
  · simp [h]
  · simp [pnBigFromU64, h]

/-! ## Small factors and addends -/

/-- The carry loop of `pn_big_mul_small`, with the limb appended for a final carry. -/
def mulSmallLoop (factor : ℕ) : ℕ → List ℕ → List ℕ
  | carry, [] => if carry ≠ 0 then [u32 carry] else []
  | carry, limb :: limbs =>
    let product := u64 (limb * factor + carry)
    u32 (product % base) :: mulSmallLoop factor (product / base) limbs

/-- `pn_big_mul_small`. -/
def pnBigMulSmall (value : PnBigInt) (factor : ℕ) : PnBigInt :=
  if value.sign = 0 ∨ factor = 1 then value
  else if factor = 0 then ⟨0, []⟩
  else { value with limbs := mulSmallLoop factor 0 value.limbs }

variable {factor : ℕ}

/-- A product of a limb and a small factor, with a carry, fits 64 bits. -/
theorem u64_limb_mul {limb carry : ℕ} (hl : limb < base) (hf : factor ≤ base)
    (hc : carry < base) : u64 (limb * factor + carry) = limb * factor + carry := by
  refine u64_of_lt ?_
  have h1 : limb * factor ≤ base * base := Nat.mul_le_mul hl.le hf
  have h2 : base * base + base < 2 ^ 64 := by decide
  omega

theorem limb_mul_div_lt {limb carry : ℕ} (hl : limb < base) (hc : carry < factor) :
    (limb * factor + carry) / base < factor := by
  rw [div_lt_iff_lt_mul (by decide)]
  calc limb * factor + carry < limb * factor + factor := by omega
    _ = (limb + 1) * factor := by ring
    _ ≤ base * factor := mul_le_mul_right factor hl
    _ = factor * base := mul_comm _ _

theorem mulSmallLoop_spec (hf : factor ≤ base) :
    ∀ (limbs : List ℕ) (carry : ℕ), (∀ d ∈ limbs, d < base) → carry < factor →
      (∀ d ∈ mulSmallLoop factor carry limbs, d < base) ∧
        ofDigits base (mulSmallLoop factor carry limbs) =
          ofDigits base limbs * factor + carry
  | [], carry, _, hc => by
    have hcb : carry < base := lt_of_lt_of_le hc hf
    by_cases h : carry = 0
    · simp [mulSmallLoop, h]
    · have hu : u32 carry = carry := u32_of_lt (hcb.trans (by decide))
      simp [mulSmallLoop, h, hu, hcb]
  | limb :: limbs, carry, hl, hc => by
    have hlb : limb < base := hl limb mem_cons_self
    have hcb : carry < base := lt_of_lt_of_le hc hf
    have ih := mulSmallLoop_spec hf limbs ((limb * factor + carry) / base)
      (fun d hd => hl d (mem_cons_of_mem _ hd)) (limb_mul_div_lt hlb hc)
    simp only [mulSmallLoop, u64_limb_mul hlb hf hcb, u32_mod_base]
    obtain ⟨hlt, hval⟩ := ofDigits_carry (by decide) ih.1 ih.2
    refine ⟨hlt, hval.trans ?_⟩
    rw [ofDigits_cons]
    ring

theorem canonical_mulSmallLoop (hf : factor ≤ base) (hf0 : factor ≠ 0) :
    ∀ (limbs : List ℕ) (carry : ℕ), Canonical base limbs → carry < factor →
      Canonical base (mulSmallLoop factor carry limbs)
  | [], carry, _, hc => by
    have hcb : carry < base := lt_of_lt_of_le hc hf
    by_cases h : carry = 0
    · simp [mulSmallLoop, h, canonical_nil]
    · have hu : u32 carry = carry := u32_of_lt (hcb.trans (by decide))
      simpa [mulSmallLoop, h, hu] using (canonical_nil base).cons hcb (.inr h)
  | limb :: limbs, carry, hl, hc => by
    have hlb : limb < base := hl.lt limb mem_cons_self
    have ih := canonical_mulSmallLoop hf hf0 limbs _ hl.tail (limb_mul_div_lt hlb hc)
    have hval := (mulSmallLoop_spec hf (limb :: limbs) carry hl.lt hc).2
    simp only [mulSmallLoop, u64_limb_mul hlb hf (lt_of_lt_of_le hc hf), u32_mod_base] at hval ⊢
    refine ih.cons (mod_lt _ (by decide)) ?_
    -- the product is not zero, so its top limb is not either
    by_contra hcon
    rw [not_or, not_not, not_not] at hcon
    rw [hcon.1, hcon.2, ofDigits_singleton] at hval
    have hzero := (Nat.mul_eq_zero.mp (Nat.add_eq_zero_iff.mp hval.symm).1).resolve_right hf0
    exact absurd ((hl.ofDigits_eq_zero_iff one_lt_base).mp hzero) (cons_ne_nil _ _)

theorem pnBigMulSmall_normal {v : PnBigInt} (hv : v.Normal) (hf : factor ≤ base) :
    (pnBigMulSmall v factor).Normal := by
  unfold pnBigMulSmall
  split_ifs with h1 h2
  · exact hv
  · exact pnBigInit_normal
  rw [not_or] at h1
  have hne : v.limbs ≠ [] := fun h => h1.1 (hv.sign_eq_zero_iff.mpr h)
  refine ⟨canonical_mulSmallLoop hf h2 v.limbs 0 hv.canonical (by omega),
    Or.inr ⟨?_, hv.sign_of_ne_zero h1.1⟩⟩
  obtain ⟨x, xs, hx⟩ := exists_cons_of_ne_nil hne
  simp [hx, mulSmallLoop]

theorem magnitude_pnBigMulSmall {v : PnBigInt} (hv : v.Normal) (hf : factor ≤ base) :
    (pnBigMulSmall v factor).magnitude = v.magnitude * factor := by
  unfold pnBigMulSmall
  split_ifs with h1 h2
  · rcases h1 with h1 | h1
    · rw [hv.magnitude_eq_zero_iff.mpr h1, zero_mul]
    · rw [h1, mul_one]
  · rw [h2, mul_zero]
    rfl
  · exact (mulSmallLoop_spec hf v.limbs 0 hv.canonical.lt (by omega)).2

theorem toInt_pnBigMulSmall {v : PnBigInt} (hv : v.Normal) (hf : factor ≤ base) :
    (pnBigMulSmall v factor).toInt = v.toInt * factor := by
  have hm := magnitude_pnBigMulSmall hv hf
  unfold PnBigInt.toInt
  rw [hm]
  have hsign : (pnBigMulSmall v factor).sign = v.sign ∨ factor = 0 := by
    unfold pnBigMulSmall
    split_ifs with h1 h2
    · exact Or.inl rfl
    · exact Or.inr h2
    · exact Or.inl rfl
  rcases hsign with h | h
  · rw [h]
    push_cast
    ring
  · simp [h]

/-- The carry loop of `pn_big_add_small`, with the limb appended for a final carry. -/
def addSmallLoop : ℕ → List ℕ → List ℕ
  | carry, [] => if carry ≠ 0 then [u32 carry] else []
  | carry, limb :: limbs =>
    if carry = 0 then limb :: limbs
    else
      let sum := u64 (limb + carry)
      u32 (sum % base) :: addSmallLoop (sum / base) limbs

/-- `pn_big_add_small`. -/
def pnBigAddSmall (value : PnBigInt) (addend : ℕ) : PnBigInt :=
  if addend = 0 then value
  else if value.sign = 0 then pnBigFromU64 addend
  else { value with limbs := addSmallLoop addend value.limbs }

theorem addSmallLoop_spec : ∀ (limbs : List ℕ) (carry : ℕ), Canonical base limbs → carry < base →
    Canonical base (addSmallLoop carry limbs) ∧
      ofDigits base (addSmallLoop carry limbs) = ofDigits base limbs + carry
  | [], carry, _, hc => by
    by_cases h : carry = 0
    · simp only [addSmallLoop, h, ne_eq, not_true_eq_false, if_false, add_zero, and_true]
      exact canonical_nil base
    · have hu : u32 carry = carry := u32_of_lt (hc.trans (by decide))
      simp only [addSmallLoop, ne_eq, h, not_false_eq_true, if_true, hu]
      refine ⟨(canonical_nil base).cons hc (Or.inr h), by simp⟩
  | limb :: limbs, carry, hl, hc => by
    by_cases h : carry = 0
    · simp only [addSmallLoop, h, if_true, add_zero, and_true]
      exact hl
    have hlb : limb < base := hl.lt limb mem_cons_self
    have hsum : u64 (limb + carry) = limb + carry := by
      refine u64_of_lt ?_
      have : base + base < 2 ^ 64 := by decide
      omega
    have hq : (limb + carry) / base ≤ 1 := by
      rw [← Nat.lt_succ_iff, Nat.div_lt_iff_lt_mul (by decide)]
      omega
    have ih := addSmallLoop_spec limbs ((limb + carry) / base) hl.tail (by unfold base at *; omega)
    simp only [addSmallLoop, h, if_false, hsum, u32_mod_base]
    have hdm := mod_add_div (limb + carry) base
    refine ⟨ih.1.cons (mod_lt _ (by decide)) ?_, ?_⟩
    · -- the sum is not zero, so its top limb is not either
      by_contra hcon
      rw [not_or, not_not, not_not] at hcon
      have hval := ih.2
      rw [hcon.1, ofDigits_nil] at hval
      have h0 : (limb + carry) / base = 0 := (Nat.add_eq_zero_iff.mp hval.symm).2
      rw [hcon.2, h0, mul_zero] at hdm
      omega
    · rw [(ofDigits_carry (by decide) ih.1.lt ih.2).2, ofDigits_cons]
      ring

theorem pnBigAddSmall_normal {v : PnBigInt} (hv : v.Normal) {addend : ℕ} (ha : addend < base) :
    (pnBigAddSmall v addend).Normal := by
  unfold pnBigAddSmall
  split_ifs with h1 h2
  · exact hv
  · exact pnBigFromU64_normal addend
  have hspec := addSmallLoop_spec v.limbs addend hv.canonical ha
  refine ⟨hspec.1, Or.inr ⟨fun h0 => ?_, ?_⟩⟩
  · have h0' : addSmallLoop addend v.limbs = [] := h0
    have := hspec.2
    rw [h0', ofDigits_nil] at this
    omega
  · rcases hv.sign_eq with ⟨_, h⟩ | ⟨_, h⟩
    · exact absurd h h2
    · exact h

theorem magnitude_pnBigAddSmall {v : PnBigInt} (hv : v.Normal) {addend : ℕ} (ha : addend < base) :
    (pnBigAddSmall v addend).magnitude = v.magnitude + addend := by
  unfold pnBigAddSmall
  split_ifs with h1 h2
  · rw [h1, add_zero]
  · rw [magnitude_pnBigFromU64, hv.magnitude_eq_zero_iff.mpr h2, zero_add]
  · exact (addSmallLoop_spec v.limbs addend hv.canonical ha).2

/-! ## Reading bytes and digits -/

/-- `pn_big_from_bytes`: the loop over the bytes. -/
def pnBigFromBytes (bytes : List ℕ) : PnBigInt :=
  bytes.foldl (fun out byte => pnBigAddSmall (pnBigMulSmall out 256) byte) pnBigInit

/-- `pn_big_from_digits` on characters that are digits; the sign is set at the end. -/
def pnBigFromDigits (digits : List ℕ) (sign : ℤ) : PnBigInt :=
  let out := digits.foldl (fun out digit => pnBigAddSmall (pnBigMulSmall out 10) digit) pnBigInit
  if out.limbs = [] then out else { out with sign := if sign < 0 then -1 else 1 }

/-- Multiplying by the radix and adding the next digit reads a big-endian number. -/
theorem foldl_mulAdd_spec {radix : ℕ} (hr : radix ≤ base) : ∀ (digits : List ℕ) (v : PnBigInt),
    (∀ d ∈ digits, d < base) → v.Normal → 0 ≤ v.sign →
    let out := digits.foldl (fun out digit => pnBigAddSmall (pnBigMulSmall out radix) digit) v
    out.Normal ∧ 0 ≤ out.sign ∧
      out.toInt = (digits.foldl (fun value digit => value * radix + digit) v.magnitude : ℕ)
  | [], v, _, hv, hs => by
    refine ⟨hv, hs, ?_⟩
    unfold PnBigInt.toInt
    rcases hv.sign_eq with ⟨_, h⟩ | ⟨_, h | h⟩
    · simp [hv.magnitude_eq_zero_iff.mpr h]
    · simp [h]
    · omega
  | digit :: digits, v, hd, hv, hs => by
    have hdb : digit < base := hd digit mem_cons_self
    have hmul := pnBigMulSmall_normal hv hr
    have hmulInt := toInt_pnBigMulSmall hv hr
    have hmulSign : 0 ≤ (pnBigMulSmall v radix).sign := by
      unfold pnBigMulSmall
      split_ifs
      · exact hs
      · exact le_refl _
      · exact hs
    have hadd := pnBigAddSmall_normal hmul hdb
    have haddSign : 0 ≤ (pnBigAddSmall (pnBigMulSmall v radix) digit).sign := by
      unfold pnBigAddSmall
      split_ifs
      · exact hmulSign
      · unfold pnBigFromU64
        dsimp only
        split_ifs
        decide
      · exact hmulSign
    have hmag : (pnBigAddSmall (pnBigMulSmall v radix) digit).magnitude =
        v.magnitude * radix + digit := by
      rw [magnitude_pnBigAddSmall hmul hdb, magnitude_pnBigMulSmall hv hr]
    have ih := foldl_mulAdd_spec hr digits (pnBigAddSmall (pnBigMulSmall v radix) digit)
      (fun d hx => hd d (mem_cons_of_mem _ hx)) hadd haddSign
    rw [hmag] at ih
    simpa only [foldl_cons] using ih

theorem pnBigFromBytes_normal {bytes : List ℕ} (h : ∀ d ∈ bytes, d < 256) :
    (pnBigFromBytes bytes).Normal :=
  (foldl_mulAdd_spec (by decide) bytes pnBigInit (fun d hd => (h d hd).trans (by decide))
    pnBigInit_normal (le_refl _)).1

theorem toInt_pnBigFromBytes {bytes : List ℕ} (h : ∀ d ∈ bytes, d < 256) :
    (pnBigFromBytes bytes).toInt = (bigEndian 256 bytes : ℕ) :=
  (foldl_mulAdd_spec (by decide) bytes pnBigInit (fun d hd => (h d hd).trans (by decide))
    pnBigInit_normal (le_refl _)).2.2

theorem pnBigFromDigits_spec {digits : List ℕ} (h : ∀ d ∈ digits, d < 10) (sign : ℤ) :
    (pnBigFromDigits digits sign).Normal ∧ (pnBigFromDigits digits sign).toInt =
        (if sign < 0 then -1 else 1) * (bigEndian 10 digits : ℕ) := by
  have hspec := @foldl_mulAdd_spec 10 (by decide) digits pnBigInit
    (fun d hd => (h d hd).trans (by decide)) pnBigInit_normal (le_refl _)
  obtain ⟨hn, hs, hv⟩ := hspec
  change _ = ((bigEndian 10 digits : ℕ) : ℤ) at hv
  unfold pnBigFromDigits
  generalize digits.foldl (fun out digit => pnBigAddSmall (pnBigMulSmall out 10) digit)
    pnBigInit = out at hn hs hv ⊢
  by_cases hl : out.limbs = []
  · have h0 : out.toInt = 0 := hn.toInt_eq_zero_iff.mpr (hn.sign_eq_zero_iff.mpr hl)
    have hz : ((bigEndian 10 digits : ℕ) : ℤ) = 0 := by rw [← hv, h0]
    simp [hl, hn, h0, hz]
  have hs1 : out.sign = 1 := by
    rcases hn.sign_eq with ⟨h', _⟩ | ⟨_, h' | h'⟩
    · exact absurd h' hl
    · exact h'
    · omega
  have hm : (out.magnitude : ℤ) = (bigEndian 10 digits : ℕ) := by
    rw [← hv]
    unfold PnBigInt.toInt
    rw [hs1, one_mul]
  simp only [hl, if_false]
  refine ⟨⟨hn.canonical, Or.inr ⟨hl, ?_⟩⟩, ?_⟩
  · split_ifs
    · exact Or.inr rfl
    · exact Or.inl rfl
  · unfold PnBigInt.toInt
    unfold PnBigInt.magnitude at hm ⊢
    rw [hm]

/-! ## Comparison -/

/-- `abs_compare`: first the number of limbs, then the limbs from the top. -/
def absCompare (a b : PnBigInt) : ℤ :=
  if a.limbs.length ≠ b.limbs.length then (if a.limbs.length < b.limbs.length then -1 else 1)
  else cmp a.limbs b.limbs

theorem absCompare_eq_sign {a b : PnBigInt} (ha : Canonical base a.limbs)
    (hb : Canonical base b.limbs) :
    absCompare a b = Int.sign ((a.magnitude : ℤ) - b.magnitude) := by
  unfold absCompare
  split_ifs with hlen hlt
  · rw [Int.sign_eq_neg_one_of_neg]
    have h : a.magnitude < b.magnitude := ofDigits_lt_ofDigits_of_length_lt ha hb one_lt_base hlt
    omega
  · rw [Int.sign_eq_one_of_pos]
    have h : b.magnitude < a.magnitude :=
      ofDigits_lt_ofDigits_of_length_lt hb ha one_lt_base (by omega)
    omega
  · exact cmp_eq_sign (not_not.mp hlen) ha.lt hb.lt

/-- `pn_big_compare`. -/
def pnBigCompare (a b : PnBigInt) : ℤ :=
  if a.sign ≠ b.sign then (if a.sign < b.sign then -1 else 1)
  else
    let result := absCompare a b
    if a.sign < 0 then -result else result

theorem lt_of_sign_lt {x y : ℤ} (h : x.sign < y.sign) : x < y := by
  rcases lt_trichotomy x 0 with hx | hx | hx <;> rcases lt_trichotomy y 0 with hy | hy | hy <;>
    simp_all [Int.sign_eq_neg_one_of_neg, Int.sign_eq_one_of_pos]
  all_goals omega

theorem pnBigCompare_eq_sign {a b : PnBigInt} (ha : a.Normal) (hb : b.Normal) :
    pnBigCompare a b = Int.sign (a.toInt - b.toInt) := by
  have habs := absCompare_eq_sign ha.canonical hb.canonical
  have hsa := ha.sign_toInt
  have hsb := hb.sign_toInt
  unfold pnBigCompare
  split_ifs with hne hlt hneg
  · rw [Int.sign_eq_neg_one_of_neg]
    have : a.toInt < b.toInt := lt_of_sign_lt (by rw [hsa, hsb]; exact hlt)
    omega
  · rw [Int.sign_eq_one_of_pos]
    have : b.toInt < a.toInt := lt_of_sign_lt (by rw [hsa, hsb]; omega)
    omega
  · -- two negative numbers compare the other way round
    have hs : b.sign = a.sign := (not_not.mp hne).symm
    have h1 : a.sign = -1 := by rcases ha.sign_eq with ⟨_, h⟩ | ⟨_, h | h⟩ <;> omega
    rw [habs, ← Int.sign_neg]
    unfold PnBigInt.toInt
    rw [hs, h1]
    congr 1
    ring
  · have hs : b.sign = a.sign := (not_not.mp hne).symm
    rw [habs]
    unfold PnBigInt.toInt
    rcases ha.sign_eq with ⟨_, h⟩ | ⟨_, h | h⟩
    · have h0 : a.magnitude = 0 := ha.magnitude_eq_zero_iff.mpr h
      have h0' : b.magnitude = 0 := hb.magnitude_eq_zero_iff.mpr (hs.trans h)
      simp [h0, h0']
    · rw [hs, h]
      simp
    · omega

/-- `pn_big_is_zero`. -/
def pnBigIsZero (value : PnBigInt) : Bool := value.sign == 0

/-- `pn_big_is_one`. -/
def pnBigIsOne (value : PnBigInt) : Bool := value.sign == 1 && value.limbs == [1]

theorem pnBigIsZero_iff {v : PnBigInt} (hv : v.Normal) : pnBigIsZero v = true ↔ v.toInt = 0 := by
  rw [hv.toInt_eq_zero_iff]
  simp [pnBigIsZero]

end Panackelty.Vm
