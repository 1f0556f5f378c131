import Panackelty.Vm.BigintArith

/-!
# `vm/bigint.c`: the 64-bit intermediates of addition, subtraction and multiplication

`abs_add` and `pn_big_mul` work in `uint64_t`, `abs_sub` in `int64_t`.  Each loop of
`BigintArith` has here a second recursion over the same state that lists the machine words the loop
computes, *before* they wrap.  The partial sums of one expression are not listed: all its terms are
non-negative, so none of them exceeds the whole.

* `Word.Fits`: the word holds the value that was computed.
* `pnBigAddWords`, `pnBigSubWords`, `pnBigMulWords`: the words of one call.
* `pnBig_exact`: the operations are exact, and every word fits.
-/

namespace Panackelty.Vm

open List

/-- A value that the source keeps in a variable of 64 bits. -/
inductive Word where
  | uint64 (value : ℕ)
  | int64 (value : ℤ)
  deriving DecidableEq, Repr

/-- The variable holds the value. -/
def Word.Fits : Word → Prop
  | uint64 value => value < 2 ^ 64
  | int64 value => -2 ^ 63 ≤ value ∧ value < 2 ^ 63

/-! ## Addition of magnitudes -/

/-- `sum` in `abs_add`, for each turn of the loop. -/
def absAddWords : ℕ → ℕ → List ℕ → List ℕ → List Word
  | 0, _, _, _ => []
  | n + 1, carry, a, b =>
    let sum := carry + a.headD 0 + b.headD 0
    .uint64 sum :: absAddWords n (u64 sum / base) a.tail b.tail

/-- A sum of two limbs and a carry bit fits, and it carries one bit on. -/
theorem sum_lt_and_carry_le {carry x y : ℕ} (hc : carry ≤ 1) (hx : x < base) (hy : y < base) :
    carry + x + y < 2 ^ 64 ∧ u64 (carry + x + y) / base ≤ 1 := by
  have hsum : carry + x + y < 2 ^ 64 := by
    unfold base at hx hy
    omega
  refine ⟨hsum, ?_⟩
  rw [u64_of_lt hsum, ← Nat.lt_succ_iff, Nat.div_lt_iff_lt_mul (by decide)]
  omega

theorem absAddWords_fits (n : ℕ) : ∀ {carry : ℕ} {a b : List ℕ}, carry ≤ 1 →
    (∀ d ∈ a, d < base) → (∀ d ∈ b, d < base) → ∀ w ∈ absAddWords n carry a b, w.Fits := by
  induction n with
  | zero =>
    intro carry a b _ _ _ w hw
    simp [absAddWords] at hw
  | succ n ih =>
    intro carry a b hc ha hb w hw
    obtain ⟨hsum, hnext⟩ :=
      sum_lt_and_carry_le hc (headD_lt (by decide) ha) (headD_lt (by decide) hb)
    rw [absAddWords, mem_cons] at hw
    rcases hw with rfl | hw
    · exact hsum
    · exact ih hnext (lt_of_mem_tail ha) (lt_of_mem_tail hb) w hw

/-! ## Subtraction of magnitudes -/

/-- `diff` in `abs_sub`, and `diff` again where a borrow adds the base to it. -/
def absSubWords : ℤ → List ℕ → List ℕ → List Word
  | _, [], _ => []
  | borrow, limb :: limbs, b =>
    let diff : ℤ := limb - b.headD 0 - borrow
    if diff < 0 then .int64 diff :: .int64 (diff + base) :: absSubWords 1 limbs b.tail
    else .int64 diff :: absSubWords 0 limbs b.tail

theorem absSubWords_fits (a : List ℕ) : ∀ {borrow : ℤ} {b : List ℕ}, (borrow = 0 ∨ borrow = 1) →
    (∀ d ∈ a, d < base) → (∀ d ∈ b, d < base) → ∀ w ∈ absSubWords borrow a b, w.Fits := by
  induction a with
  | nil =>
    intro borrow b _ _ _ w hw
    simp [absSubWords] at hw
  | cons limb limbs ih =>
    intro borrow b hbor ha hb w hw
    have hlimb : limb < base := ha limb mem_cons_self
    have hdigit : b.headD 0 < base := headD_lt (by decide) hb
    have hlimbs : ∀ d ∈ limbs, d < base := fun d hd => ha d (mem_cons_of_mem _ hd)
    have hdiff : (Word.int64 (limb - b.headD 0 - borrow)).Fits := by
      unfold base at hlimb hdigit
      constructor <;> omega
    rw [absSubWords] at hw
    split_ifs at hw with hneg
    · have hback : (Word.int64 (limb - b.headD 0 - borrow + base)).Fits := by
        unfold base at hlimb hdigit ⊢
        constructor <;> push_cast <;> omega
      rcases mem_cons.mp hw with rfl | hw
      · exact hdiff
      rcases mem_cons.mp hw with rfl | hw
      · exact hback
      · exact ih (Or.inr rfl) hlimbs (lt_of_mem_tail hb) w hw
    · rcases mem_cons.mp hw with rfl | hw
      · exact hdiff
      · exact ih (Or.inl rfl) hlimbs (lt_of_mem_tail hb) w hw

/-! ## Multiplication -/

/-- `current` in the loop `while (carry)` of `pn_big_mul`. -/
def carryWords : ℕ → List ℕ → List Word
  | _, [] => []
  | carry, cell :: out =>
    if carry = 0 then []
    else
      let current := cell + carry
      .uint64 current :: carryWords (u64 current / base) out

/-- `current` in the inner loop of `pn_big_mul`, and in the carry loop after it. -/
def mulRowWords (limb : ℕ) : ℕ → List ℕ → List ℕ → List Word
  | carry, [], out => carryWords carry out
  | _, _ :: _, [] => []
  | carry, digit :: b, cell :: out =>
    let current := cell + limb * digit + carry
    .uint64 current :: mulRowWords limb (u64 current / base) b out

/-- Every `current` of `pn_big_mul`, row after row. -/
def mulWords (b : List ℕ) : List ℕ → List ℕ → List Word
  | [], _ => []
  | limb :: a, out => mulRowWords limb 0 b out ++ mulWords b a (mulRow limb 0 b out).tail

theorem carryWords_fits (out : List ℕ) : ∀ {carry : ℕ}, carry < base → (∀ d ∈ out, d < base) →
    ∀ w ∈ carryWords carry out, w.Fits := by
  induction out with
  | nil =>
    intro carry _ _ w hw
    simp [carryWords] at hw
  | cons cell out ih =>
    intro carry hc hd w hw
    have hcell : cell < base := hd cell mem_cons_self
    have hsum : cell + carry < 2 ^ 64 := by
      unfold base at hc hcell
      omega
    have hnext : u64 (cell + carry) / base < base := by
      rw [u64_of_lt hsum, Nat.div_lt_iff_lt_mul (by decide)]
      unfold base at *
      omega
    rw [carryWords] at hw
    split_ifs at hw with h0
    · simp at hw
    rcases mem_cons.mp hw with rfl | hw
    · exact hsum
    · exact ih hnext (fun d hx => hd d (mem_cons_of_mem _ hx)) w hw

theorem mulRowWords_fits {limb : ℕ} (hl : limb < base) (b : List ℕ) :
    ∀ {carry : ℕ} {out : List ℕ}, carry < base → (∀ d ∈ b, d < base) → (∀ d ∈ out, d < base) →
    ∀ w ∈ mulRowWords limb carry b out, w.Fits := by
  induction b with
  | nil =>
    intro carry out hc _ hd w hw
    rw [mulRowWords] at hw
    exact carryWords_fits out hc hd w hw
  | cons digit b ih =>
    intro carry out hc hb hd w hw
    rcases out with _ | ⟨cell, out⟩
    · simp [mulRowWords] at hw
    have hbound : cell + limb * digit + carry < base * base :=
      cell_add_mul_lt (hd cell mem_cons_self) hl (hb digit mem_cons_self) hc
    have hsum : cell + limb * digit + carry < 2 ^ 64 := hbound.trans (by decide)
    have hnext : u64 (cell + limb * digit + carry) / base < base := by
      rw [u64_of_lt hsum]
      exact Nat.div_lt_of_lt_mul hbound
    rw [mulRowWords, mem_cons] at hw
    rcases hw with rfl | hw
    · exact hsum
    · exact ih hnext (fun d hx => hb d (mem_cons_of_mem _ hx))
        (fun d hx => hd d (mem_cons_of_mem _ hx)) w hw

/-- A cell is stored modulo the base, so it stays a limb whatever the carry is. -/
theorem lt_of_mem_carryLoop (out : List ℕ) : ∀ {carry : ℕ}, (∀ d ∈ out, d < base) →
    ∀ d ∈ carryLoop carry out, d < base := by
  induction out with
  | nil =>
    intro carry _ d hx
    simp [carryLoop] at hx
  | cons cell out ih =>
    intro carry hd d hx
    rw [carryLoop] at hx
    split_ifs at hx
    · exact hd d hx
    rcases mem_cons.mp hx with rfl | hx
    · rw [u32_mod_base]
      exact Nat.mod_lt _ (by decide)
    · exact ih (fun d hx => hd d (mem_cons_of_mem _ hx)) d hx

theorem lt_of_mem_mulRow {limb : ℕ} (b : List ℕ) : ∀ {carry : ℕ} {out : List ℕ},
    (∀ d ∈ out, d < base) → ∀ d ∈ mulRow limb carry b out, d < base := by
  induction b with
  | nil =>
    intro carry out hd d hx
    rw [mulRow] at hx
    exact lt_of_mem_carryLoop out hd d hx
  | cons digit b ih =>
    intro carry out hd d hx
    rcases out with _ | ⟨cell, out⟩
    · simp [mulRow] at hx
    rw [mulRow, mem_cons] at hx
    rcases hx with rfl | hx
    · rw [u32_mod_base]
      exact Nat.mod_lt _ (by decide)
    · exact ih (fun d hx => hd d (mem_cons_of_mem _ hx)) d hx

theorem mulWords_fits {b : List ℕ} (hb : ∀ d ∈ b, d < base) (a : List ℕ) : ∀ {out : List ℕ},
    (∀ d ∈ a, d < base) → (∀ d ∈ out, d < base) → ∀ w ∈ mulWords b a out, w.Fits := by
  induction a with
  | nil =>
    intro out _ _ w hw
    simp [mulWords] at hw
  | cons limb a ih =>
    intro out ha hd w hw
    have hl : limb < base := ha limb mem_cons_self
    rw [mulWords, mem_append] at hw
    rcases hw with hw | hw
    · exact mulRowWords_fits hl b (by decide) hb hd w hw
    · exact ih (fun d hx => ha d (mem_cons_of_mem _ hx))
        (lt_of_mem_tail (lt_of_mem_mulRow b hd)) w hw

/-! ## The operations -/

/-- The words of `pn_big_add`. -/
def pnBigAddWords (a b : PnBigInt) : List Word :=
  if a.sign = 0 then []
  else if b.sign = 0 then []
  else if a.sign = b.sign then
    absAddWords (max a.limbs.length b.limbs.length) 0 a.limbs b.limbs
  else
    let cmp := absCompare a b
    if cmp = 0 then []
    else if cmp > 0 then absSubWords 0 a.limbs b.limbs
    else absSubWords 0 b.limbs a.limbs

/-- The words of `pn_big_sub`. -/
def pnBigSubWords (a b : PnBigInt) : List Word :=
  pnBigAddWords a { b with sign := -b.sign }

/-- The words of `pn_big_mul`. -/
def pnBigMulWords (a b : PnBigInt) : List Word :=
  if a.sign = 0 ∨ b.sign = 0 then []
  else mulWords b.limbs a.limbs (List.replicate (a.limbs.length + b.limbs.length) 0)

section

variable {a b : PnBigInt}

theorem pnBigAddWords_fits (ha : ∀ d ∈ a.limbs, d < base) (hb : ∀ d ∈ b.limbs, d < base) :
    ∀ w ∈ pnBigAddWords a b, w.Fits := by
  intro w hw
  simp only [pnBigAddWords] at hw
  split_ifs at hw
  · simp at hw
  · simp at hw
  · exact absAddWords_fits _ (by decide) ha hb w hw
  · simp at hw
  · exact absSubWords_fits _ (Or.inl rfl) ha hb w hw
  · exact absSubWords_fits _ (Or.inl rfl) hb ha w hw

theorem pnBigSubWords_fits (ha : ∀ d ∈ a.limbs, d < base) (hb : ∀ d ∈ b.limbs, d < base) :
    ∀ w ∈ pnBigSubWords a b, w.Fits :=
  pnBigAddWords_fits ha hb

theorem pnBigMulWords_fits (ha : ∀ d ∈ a.limbs, d < base) (hb : ∀ d ∈ b.limbs, d < base) :
    ∀ w ∈ pnBigMulWords a b, w.Fits := by
  intro w hw
  rw [pnBigMulWords] at hw
  split_ifs at hw
  · simp at hw
  refine mulWords_fits hb a.limbs ha (fun d hd => ?_) w hw
  rw [eq_of_mem_replicate hd]
  decide

/-- On normalised numbers addition, subtraction and multiplication return the normalised sum,
difference and product, comparison is the sign of the difference, and no variable of 64 bits
overflows on the way. -/
theorem pnBig_exact (ha : a.Normal) (hb : b.Normal) :
    ((pnBigAdd a b).Normal ∧ (pnBigAdd a b).toInt = a.toInt + b.toInt) ∧
      ((pnBigSub a b).Normal ∧ (pnBigSub a b).toInt = a.toInt - b.toInt) ∧
      ((pnBigMul a b).Normal ∧ (pnBigMul a b).toInt = a.toInt * b.toInt) ∧
      pnBigCompare a b = (a.toInt - b.toInt).sign ∧
      ∀ w ∈ pnBigAddWords a b ++ pnBigSubWords a b ++ pnBigMulWords a b, w.Fits := by
  refine ⟨pnBigAdd_spec ha hb, pnBigSub_spec ha hb, pnBigMul_spec ha hb,
    pnBigCompare_eq_sign ha hb, fun w hw => ?_⟩
  rw [mem_append, mem_append] at hw
  have hda := ha.canonical.lt
  have hdb := hb.canonical.lt
  rcases hw with (hw | hw) | hw
  · exact pnBigAddWords_fits hda hdb w hw
  · exact pnBigSubWords_fits hda hdb w hw
  · exact pnBigMulWords_fits hda hdb w hw

end

/-- Two numbers of two limbs: the product carries past its row, and the difference borrows. -/
theorem pnBig_exact_two_limbs : (pnBigMul ⟨1, [999999999, 999999999]⟩ ⟨-1, [1, 999999999]⟩).toInt =
        (999999999999999999 : ℤ) * -999999999000000001 ∧
      (pnBigSub ⟨1, [999999999, 999999999]⟩ ⟨-1, [1, 999999999]⟩).toInt =
        999999999999999999 - -999999999000000001 := by
  have hlimbs : ∀ d ∈ [999999999, 999999999, 1], d < base := by decide
  have ha : (PnBigInt.mk 1 [999999999, 999999999]).Normal :=
    ⟨⟨fun d hd => hlimbs d (by simp_all), by decide⟩, Or.inr ⟨by decide, by decide⟩⟩
  have hb : (PnBigInt.mk (-1) [1, 999999999]).Normal :=
    ⟨⟨fun d hd => hlimbs d (by simp at hd ⊢; tauto), by decide⟩, Or.inr ⟨by decide, by decide⟩⟩
  obtain ⟨_, ⟨_, hsub⟩, ⟨_, hmul⟩, _⟩ := pnBig_exact ha hb
  refine ⟨hmul.trans ?_, hsub.trans ?_⟩ <;>
    norm_num [PnBigInt.toInt, PnBigInt.magnitude, Nat.ofDigits_cons, base]

end Panackelty.Vm
