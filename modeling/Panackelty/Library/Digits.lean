import Mathlib.Data.Nat.Digits.Lemmas
import Mathlib.Tactic.Linarith
import Mathlib.Tactic.Ring

/-!
# Little-endian digit lists

Arbitrary-precision integers are stored as lists of digits, least significant digit first.
`Nat.ofDigits` reads such a list; this file adds what an implementation needs besides the value:

* `trim`: dropping the zero digits at the top, with `ofDigits_trim` and `canonical_trim`.
* `Canonical`: digits below the base and no zero at the top.  `Canonical.ext` says that the value
  determines the list.
* `ofDigits_lt_ofDigits_of_length_lt`: of two canonical lists the shorter one is smaller.
* `cmp`: comparison of two lists of one length from the top digit down, with `cmp_eq_sign`.
-/

namespace Panackelty.Library.Digits

open List Nat
open Nat (digits ofDigits)

/-! ## Dropping leading zeros -/

/-- The list without the zero digits at its top. -/
def trim : List ℕ → List ℕ
  | [] => []
  | d :: ds =>
    match trim ds with
    | [] => if d = 0 then [] else [d]
    | e :: es => d :: e :: es

theorem trim_cons_of_eq_nil {d : ℕ} {ds : List ℕ} (h : trim ds = []) :
    trim (d :: ds) = if d = 0 then [] else [d] := by
  rw [trim, h]

theorem trim_cons_of_ne_nil {d : ℕ} {ds : List ℕ} (h : trim ds ≠ []) :
    trim (d :: ds) = d :: trim ds := by
  obtain ⟨e, es, he⟩ := exists_cons_of_ne_nil h
  rw [trim, he]

theorem ofDigits_trim (b : ℕ) (ds : List ℕ) : ofDigits b (trim ds) = ofDigits b ds := by
  induction ds with
  | nil => rfl
  | cons d ds ih =>
    by_cases h : trim ds = []
    · rw [h, ofDigits_nil] at ih
      rw [trim_cons_of_eq_nil h, ofDigits_cons, ← ih]
      split_ifs with hd
      · simp [hd]
      · simp
    · rw [trim_cons_of_ne_nil h, ofDigits_cons, ofDigits_cons, ih]

theorem mem_of_mem_trim {x : ℕ} : ∀ {ds : List ℕ}, x ∈ trim ds → x ∈ ds
  | [], h => h
  | d :: ds, h => by
    by_cases ht : trim ds = []
    · rw [trim_cons_of_eq_nil ht] at h
      split_ifs at h with hd
      · simp at h
      rw [mem_singleton] at h
      rw [h]
      exact mem_cons_self
    · rw [trim_cons_of_ne_nil ht, mem_cons] at h
      rcases h with rfl | h
      · exact mem_cons_self
      · exact mem_cons_of_mem _ (mem_of_mem_trim h)

theorem getLast_trim_ne_zero : ∀ {ds : List ℕ} (h : trim ds ≠ []), (trim ds).getLast h ≠ 0
  | [], h => absurd rfl h
  | d :: ds, h => by
    by_cases ht : trim ds = []
    · have hd : d ≠ 0 := by
        rintro rfl
        exact h (by rw [trim_cons_of_eq_nil ht, if_pos rfl])
      simp only [trim_cons_of_eq_nil ht, if_neg hd, getLast_singleton]
      exact hd
    · simp only [trim_cons_of_ne_nil ht, getLast_cons ht]
      exact getLast_trim_ne_zero ht

/-! ## Canonical lists -/

/-- A digit list as an implementation keeps it: every digit is below the base, and the top digit
is not zero. -/
structure Canonical (b : ℕ) (ds : List ℕ) : Prop where
  lt : ∀ d ∈ ds, d < b
  top : ∀ h : ds ≠ [], ds.getLast h ≠ 0

theorem canonical_nil (b : ℕ) : Canonical b [] :=
  ⟨by simp, fun h => absurd rfl h⟩

theorem canonical_trim {b : ℕ} {ds : List ℕ} (h : ∀ d ∈ ds, d < b) : Canonical b (trim ds) :=
  ⟨fun d hd => h d (mem_of_mem_trim hd), fun hne => getLast_trim_ne_zero hne⟩

theorem canonical_digits {b : ℕ} (hb : 1 < b) (n : ℕ) : Canonical b (digits b n) := by
  refine ⟨fun d hd => digits_lt_base hb hd, fun h => ?_⟩
  exact getLast_digit_ne_zero b (digits_ne_nil_iff_ne_zero.mp h)

section

variable {b : ℕ} {ds es : List ℕ}

theorem Canonical.digits_ofDigits (h : Canonical b ds) (hb : 1 < b) :
    digits b (ofDigits b ds) = ds :=
  Nat.digits_ofDigits b hb ds h.lt h.top

theorem Canonical.ext (hd : Canonical b ds) (he : Canonical b es) (hb : 1 < b)
    (h : ofDigits b ds = ofDigits b es) : ds = es := by
  rw [← hd.digits_ofDigits hb, h, he.digits_ofDigits hb]

theorem Canonical.ofDigits_eq_zero_iff (h : Canonical b ds) (hb : 1 < b) :
    ofDigits b ds = 0 ↔ ds = [] := by
  constructor
  · intro h0
    exact h.ext (canonical_nil b) hb h0
  · rintro rfl
    rfl

theorem Canonical.tail {d : ℕ} (h : Canonical b (d :: ds)) : Canonical b ds := by
  refine ⟨fun d hd => h.lt d (mem_cons_of_mem _ hd), fun hne => ?_⟩
  have htop := h.top (cons_ne_nil _ _)
  rwa [getLast_cons hne] at htop

theorem Canonical.cons {d : ℕ} (h : Canonical b ds) (hd : d < b) (hne : ds ≠ [] ∨ d ≠ 0) :
    Canonical b (d :: ds) := by
  refine ⟨?_, fun hcons => ?_⟩
  · intro x hx
    rcases mem_cons.mp hx with rfl | hx
    · exact hd
    · exact h.lt x hx
  by_cases hds : ds = []
  · subst hds
    simpa using hne
  · rw [getLast_cons hds]
    exact h.top hds

/-- One step of a carry loop: the sum is stored modulo the base, its quotient is carried on. -/
theorem ofDigits_carry {sum value : ℕ} (hb : 0 < b) (hlt : ∀ d ∈ ds, d < b)
    (h : ofDigits b ds = value + sum / b) :
    (∀ d ∈ sum % b :: ds, d < b) ∧ ofDigits b (sum % b :: ds) = sum + b * value := by
  refine ⟨forall_mem_cons.mpr ⟨mod_lt _ hb, hlt⟩, ?_⟩
  rw [ofDigits_cons, h]
  calc sum % b + b * (value + sum / b) = (sum % b + b * (sum / b)) + b * value := by ring
    _ = sum + b * value := by rw [mod_add_div]

theorem carry_lt_pow {sum value n : ℕ} (h : sum + b * value < b ^ (n + 1)) :
    value + sum / b < b ^ n := by
  have hle := mul_div_le sum b
  rw [pow_succ'] at h
  exact lt_of_mul_lt_mul_left (a := b) (by rw [mul_add]; omega) (zero_le b)

/-- One step of a long division: the remainder of the higher digits goes before the next digit. -/
theorem longDivision_step {d limb n : ℕ} (hd : 0 < d) :
    (limb + b * n) / d = (limb + b * (n % d)) / d + b * (n / d) ∧
      (limb + b * n) % d = (limb + b * (n % d)) % d := by
  have h : limb + b * n = limb + b * (n % d) + d * (b * (n / d)) := by
    calc limb + b * n = limb + b * (n % d + d * (n / d)) := by rw [mod_add_div]
      _ = _ := by ring
  rw [h, add_mul_div_left _ _ hd, add_mul_mod_self_left]
  exact ⟨rfl, rfl⟩

/-- A canonical list reaches its length: its value is at least the top power of the base. -/
theorem Canonical.pow_le_ofDigits (h : Canonical b ds) (hb : 1 < b) (hne : ds ≠ []) :
    b ^ (ds.length - 1) ≤ ofDigits b ds := by
  have hpos : ofDigits b ds ≠ 0 := fun h0 => hne ((h.ofDigits_eq_zero_iff hb).mp h0)
  have hlen : ds.length = log b (ofDigits b ds) + 1 := by
    conv_lhs => rw [← h.digits_ofDigits hb]
    exact length_digits b _ hb hpos
  rw [hlen, Nat.add_sub_cancel]
  exact pow_log_le_self b hpos

theorem ofDigits_lt_ofDigits_of_length_lt (hd : Canonical b ds) (he : Canonical b es) (hb : 1 < b)
    (h : ds.length < es.length) : ofDigits b ds < ofDigits b es := by
  have hne : es ≠ [] := by
    rintro rfl
    simp at h
  calc ofDigits b ds < b ^ ds.length := ofDigits_lt_base_pow_length hb hd.lt
    _ ≤ b ^ (es.length - 1) := Nat.pow_le_pow_right (by omega) (by omega)
    _ ≤ ofDigits b es := he.pow_le_ofDigits hb hne

end

/-! ## Comparison from the top -/

/-- Compare two lists of one length: the highest digit where they differ decides. -/
def cmp : List ℕ → List ℕ → ℤ
  | d :: ds, e :: es =>
    let above := cmp ds es
    if above ≠ 0 then above else if d ≠ e then (if d < e then -1 else 1) else 0
  | _, _ => 0

/-- On lists of one length with digits below the base, `cmp` is the sign of the difference. -/
theorem cmp_eq_sign {b : ℕ} : ∀ {ds es : List ℕ}, ds.length = es.length →
    (∀ d ∈ ds, d < b) → (∀ e ∈ es, e < b) →
    cmp ds es = Int.sign (((ofDigits b ds : ℕ) : ℤ) - ((ofDigits b es : ℕ) : ℤ))
  | [], [], _, _, _ => by simp [cmp]
  | d :: ds, e :: es, hlen, hd, he => by
    have hlen' : ds.length = es.length := by simpa using hlen
    have ih := cmp_eq_sign hlen'
      (fun x hx => hd x (mem_cons_of_mem _ hx)) (fun x hx => he x (mem_cons_of_mem _ hx))
    have hdb : d < b := hd d mem_cons_self
    have heb : e < b := he e mem_cons_self
    rw [cmp, ofDigits_cons, ofDigits_cons, ih]
    generalize ofDigits b ds = x
    generalize ofDigits b es = y
    push_cast
    rcases lt_trichotomy (x : ℤ) y with h | h | h
    · -- a smaller upper part wins whatever the low digits are
      rw [Int.sign_eq_neg_one_of_neg (by linarith), if_pos (by decide), Int.sign_eq_neg_one_of_neg]
      nlinarith
    · rw [h, sub_self, Int.sign_zero, if_neg (by decide)]
      split_ifs with h1 h2
      · rw [Int.sign_eq_neg_one_of_neg]
        linarith
      · rw [Int.sign_eq_one_of_pos]
        have : (e : ℤ) < d := by exact_mod_cast (by omega : e < d)
        linarith
      · have : d = e := not_not.mp h1
        simp [this]
    · rw [Int.sign_eq_one_of_pos (by linarith), if_pos (by decide), Int.sign_eq_one_of_pos]
      nlinarith
  | [], _ :: _, hlen, _, _ | _ :: _, [], hlen, _, _ => by simp at hlen

/-! ## Big-endian numbers -/

/-- The number that digits spell, most significant digit first. -/
def bigEndian (radix : ℕ) (digits : List ℕ) : ℕ :=
  digits.foldl (fun value digit => value * radix + digit) 0

theorem foldl_mul_add (radix : ℕ) : ∀ (digits : List ℕ) (start : ℕ),
    digits.foldl (fun value digit => value * radix + digit) start =
      start * radix ^ digits.length + ofDigits radix digits.reverse
  | [], start => by simp
  | d :: digits, start => by
    rw [foldl_cons, foldl_mul_add radix digits, reverse_cons, ofDigits_append,
      ofDigits_singleton, length_reverse, length_cons, pow_succ]
    ring

theorem bigEndian_eq_ofDigits (radix : ℕ) (digits : List ℕ) :
    bigEndian radix digits = ofDigits radix digits.reverse := by
  rw [bigEndian, foldl_mul_add, zero_mul, zero_add]

theorem bigEndian_append (radix : ℕ) (a b : List ℕ) :
    bigEndian radix (a ++ b) = bigEndian radix a * radix ^ b.length + bigEndian radix b := by
  rw [bigEndian, foldl_append, foldl_mul_add, ← bigEndian_eq_ofDigits]
  rfl

theorem bigEndian_replicate_zero (radix k : ℕ) : bigEndian radix (replicate k 0) = 0 := by
  rw [bigEndian_eq_ofDigits, reverse_replicate, ofDigits_replicate_zero]

/-- A big-endian number without a leading zero is determined by its value. -/
theorem digits_bigEndian {radix : ℕ} (hr : 1 < radix) {digits : List ℕ}
    (hlt : ∀ d ∈ digits, d < radix) (hhead : digits.head? ≠ some 0) :
    (Nat.digits radix (bigEndian radix digits)).reverse = digits := by
  have hc : Canonical radix digits.reverse := by
    refine ⟨fun d hd => hlt d (mem_reverse.mp hd), fun hne h0 => hhead ?_⟩
    rw [getLast_reverse] at h0
    rw [head?_eq_some_head (by simpa using hne), h0]
  rw [bigEndian_eq_ofDigits, hc.digits_ofDigits hr, reverse_reverse]

theorem bigEndian_reverse_digits (radix n : ℕ) :
    bigEndian radix (digits radix n).reverse = n := by
  rw [bigEndian_eq_ofDigits, reverse_reverse, ofDigits_digits]

theorem head?_reverse_digits_ne_zero {radix : ℕ} (n : ℕ) :
    (digits radix n).reverse.head? ≠ some 0 := by
  intro h
  rw [head?_reverse, getLast?_eq_some_iff] at h
  obtain ⟨ys, hys⟩ := h
  have hn : n ≠ 0 := by
    rintro rfl
    simp at hys
  have := getLast_digit_ne_zero radix hn
  simp [hys] at this

end Panackelty.Library.Digits
