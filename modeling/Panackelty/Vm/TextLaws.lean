import Panackelty.Vm.BuiltinsText
import Panackelty.Vm.Rationals

/-!
# Texts in the VM as lists of code points

* `pnBigFitsSizeAt_exact`: what an index is read as, for any width of `size_t`.
* `text_operations_exact`: the operations on a `Str` are those of its list of code points.
* `text_order_exact`: and so is its order.
-/

namespace Panackelty.Vm

open String (utf8EncodeChar)
open Nat
open List

/-! ## Indices -/

/-- A digit is added with a test against overflow of `limit`. -/
def limitStep (b limit digit : ℕ) (res : Option ℕ) : Option ℕ :=
  res.bind fun res => if (limit - digit) / b < res then none else some (res * b + digit)

variable {v : PnBigInt} {bits b limit n : ℕ}

/-- Reading digits, lowest first. -/
theorem foldr_limitStep (hb : 0 < b) : ∀ {digits : List ℕ}, (∀ d ∈ digits, d ≤ limit) →
    digits.foldr (limitStep b limit) (some 0) =
      if ofDigits b digits ≤ limit then some (ofDigits b digits) else none
  | [], _ => by simp
  | digit :: digits, h => by
    have hdigit : digit ≤ limit := h digit (by simp)
    have htest : ∀ r, (limit - digit) / b < r ↔ ¬ r * b + digit ≤ limit := fun r => by
      rw [div_lt_iff_lt_mul hb]
      omega
    rw [foldr_cons, foldr_limitStep hb fun d hd => h d (mem_cons_of_mem _ hd),
      ofDigits_cons, add_comm digit, mul_comm b]
    by_cases hfit : ofDigits b digits ≤ limit
    · simp only [limitStep, if_pos hfit, Option.bind_some, htest, ite_not]
    have hbig := Nat.le_mul_of_pos_right (ofDigits b digits) hb
    rw [if_neg hfit, if_neg (by omega)]
    rfl

theorem foldr_limitStep_normal (hv : v.Normal) (hlim : base ≤ limit + 1) :
    (if v.sign < 0 then none else v.limbs.foldr (limitStep base limit) (some 0)) =
      if 0 ≤ v.toInt ∧ v.toInt ≤ limit then some v.toInt.toNat else none := by
  have hsign : v.sign < 0 ↔ v.toInt < 0 := by rw [← hv.sign_toInt, Int.sign_neg_iff]
  have hlimbs : ∀ d ∈ v.limbs, d ≤ limit := fun d hd => by
    have := hv.canonical.lt d hd
    omega
  have hmag := hv.natAbs_toInt
  rw [PnBigInt.magnitude] at hmag
  rw [foldr_limitStep (by decide) hlimbs, ← hmag]
  by_cases hneg : v.toInt < 0
  · rw [if_pos (hsign.mpr hneg), if_neg (by omega)]
  have habs : v.toInt.natAbs = v.toInt.toNat := by omega
  rw [if_neg (mt hsign.mp hneg), habs]
  exact if_congr (by omega) rfl rfl

/-- The number in a `V_NAT`. -/
def NatBig.toNat (n : NatBig) : ℕ := n.big.toInt.toNat

theorem valueIndex_nat (n : NatBig) :
    valueIndex (.nat n) = if n.toNat ≤ sizeMax then some n.toNat else none := by
  have hnonneg : 0 ≤ n.big.raw.toInt := n.nonneg
  refine (foldr_limitStep_normal n.big.normal (by decide)).trans (if_congr ?_ rfl rfl)
  rw [NatBig.toNat, Big.toInt]
  omega

/-- The result of a step on a `size_t` of so many bits; one that would wrap is an error. -/
def sizeWord (bits : ℕ) (value : ℤ) : Except Unit ℕ :=
  if 0 ≤ value ∧ value < 2 ^ bits then .ok value.toNat else .error ()

/-- A round of `pn_big_fits_size`; after a `none` it has returned. -/
def fitsSizeStep (bits base limb : ℕ) : Option ℕ → Except Unit (Option ℕ)
  | none => .ok none
  | some result => do
    let room ← sizeWord bits (2 ^ bits - 1 - limb)
    if room / base < result then return none
    let product ← sizeWord bits (result * base)
    return some (← sizeWord bits (product + limb))

/-- `pn_big_fits_size` for any width of `size_t`. -/
def pnBigFitsSizeAt (bits : ℕ) (value : PnBigInt) : Except Unit (Option ℕ) :=
  if value.sign < 0 then .ok none
  else value.limbs.foldr (fun limb result => result.bind (fitsSizeStep bits base limb))
    (.ok (some 0))

theorem sizeWord_natCast (h : n < 2 ^ bits) : sizeWord bits n = .ok n := by
  have hlt : (n : ℤ) < 2 ^ bits := by exact_mod_cast h
  rw [sizeWord, if_pos ⟨Int.natCast_nonneg n, hlt⟩, Int.toNat_natCast]

/-- The test of a round keeps the product and the sum in range. -/
theorem fitsSizeStep_eq (hb : 0 < b) {limb : ℕ} (h : limb < 2 ^ bits) (res : Option ℕ) :
    fitsSizeStep bits b limb res = .ok (limitStep b (2 ^ bits - 1) limb res) := by
  rcases res with _ | res
  · rfl
  have hroom : (2 ^ bits - 1 - limb : ℤ) = (2 ^ bits - 1 - limb : ℕ) := by
    zify [Nat.one_le_two_pow, Nat.le_sub_one_of_lt h]
  rw [fitsSizeStep, hroom, sizeWord_natCast (by omega), limitStep, Option.bind_some]
  by_cases htest : (2 ^ bits - 1 - limb) / b < res
  · rw [if_pos htest]
    exact if_pos htest
  have hsum : res * b + limb < 2 ^ bits := by
    have := (Nat.le_div_iff_mul_le hb).mp (not_lt.mp htest)
    omega
  have hprod : sizeWord bits (res * b) = .ok (res * b) := by
    exact_mod_cast sizeWord_natCast (Nat.lt_of_add_right_lt hsum)
  have hadd : sizeWord bits ((res * b : ℕ) + limb) = .ok (res * b + limb) := by
    exact_mod_cast sizeWord_natCast hsum
  rw [if_neg htest]
  simp only [bind, Except.bind, if_neg htest, hprod, hadd, pure, Except.pure]

theorem foldr_fitsSizeStep (hb : 0 < b) : ∀ {limbs : List ℕ}, (∀ d ∈ limbs, d < 2 ^ bits) →
    limbs.foldr (fun limb (res : Except Unit (Option ℕ)) => res.bind (fitsSizeStep bits b limb))
      (.ok (some 0)) = .ok (limbs.foldr (limitStep b (2 ^ bits - 1)) (some 0))
  | [], _ => rfl
  | limb :: limbs, h => by
    rw [forall_mem_cons] at h
    rw [foldr_cons, foldr_cons, foldr_fitsSizeStep hb h.2]
    exact fitsSizeStep_eq hb h.1 _

theorem base_le_two_pow (h : 32 ≤ bits) : base ≤ 2 ^ bits :=
  le_trans (by decide) (Nat.pow_le_pow_right two_pos h)

/-- For any width no step on a `size_t` wraps, and the result is the number if it fits. -/
theorem pnBigFitsSizeAt_exact (hbits : 32 ≤ bits) (hv : v.Normal) :
    pnBigFitsSizeAt bits v =
      .ok (if 0 ≤ v.toInt ∧ v.toInt ≤ 2 ^ bits - 1 then some v.toInt.toNat else none) ∧
    pnBigFitsSizeAt 64 v = .ok (pnBigFitsSize v) := by
  have hrun : ∀ {w}, 32 ≤ w → pnBigFitsSizeAt w v =
      .ok (if v.sign < 0 then none else v.limbs.foldr (limitStep base (2 ^ w - 1)) (some 0)) := by
    intro w hw
    rw [pnBigFitsSizeAt]
    split_ifs
    · rfl
    · exact foldr_fitsSizeStep (by decide) fun d hd =>
        (hv.canonical.lt d hd).trans_le (base_le_two_pow hw)
  have hlim : base ≤ 2 ^ bits - 1 + 1 := (base_le_two_pow hbits).trans le_tsub_add
  rw [hrun hbits, foldr_limitStep_normal hv hlim, Nat.cast_sub Nat.one_le_two_pow]
  exact ⟨by push_cast; rfl, hrun (by decide)⟩

theorem pnBigFitsSizeAt_exact_max :
    pnBigFitsSizeAt 32 ⟨1, [294967295, 4]⟩ = .ok (some (2 ^ 32 - 1)) := by
  have hv : PnBigInt.Normal ⟨1, [294967295, 4]⟩ :=
    ⟨⟨by decide, by simp⟩, .inr ⟨by simp, .inl rfl⟩⟩
  rw [(pnBigFitsSizeAt_exact le_rfl hv).1]
  decide

/-! ## Operations -/

theorem length_le_encodeUtf8 (chars : List Char) : chars.length ≤ (encodeUtf8 chars).length := by
  rw [← utf8Characters_encodeUtf8 chars]
  exact countP_le_length

theorem drop_offsetOf (chars : List Char) (m : ℕ) :
    (encodeUtf8 chars).drop (offsetOf chars m) = encodeUtf8 (chars.drop m) := by
  nth_rewrite 2 [← take_append_drop m chars]
  rw [encodeUtf8_append, offsetOf, drop_left]

/-- The bytes between two places are the encoding of the characters between them. -/
theorem encodeUtf8_extract {chars : List Char} {m n : ℕ} (hmn : m ≤ n) :
    ((encodeUtf8 chars).drop (offsetOf chars m)).take (offsetOf chars n - offsetOf chars m) =
      encodeUtf8 ((chars.drop m).take (n - m)) := by
  have hoff : offsetOf chars n = offsetOf chars m +
      (encodeUtf8 ((chars.drop m).take (n - m))).length := by
    rw [offsetOf, offsetOf, ← length_append, ← encodeUtf8_append, ← take_add,
      Nat.add_sub_cancel' hmn]
  rw [drop_offsetOf, hoff, Nat.add_sub_cancel_left]
  nth_rewrite 2 [← take_append_drop (n - m) (chars.drop m)]
  rw [encodeUtf8_append, take_left]

theorem reverseLoop_encodeUtf8 : ∀ {fuel : ℕ} {chars : List Char} (out : Bytes),
    chars.length ≤ fuel → reverseLoop fuel (encodeUtf8 chars) out = encodeUtf8 chars.reverse ++ out
  | 0, [], _, _ | _ + 1, [], _, _ => rfl
  | fuel + 1, c :: chars, out, h => by
    obtain ⟨b, tail, hb, htrail, _⟩ := utf8EncodeChar_spec c
    have hwidth : 1 + utf8Trailing b = (b :: tail).length := by rw [htrail, length_cons, add_comm]
    rw [encodeUtf8_cons, hb, cons_append, reverseLoop, ← cons_append, hwidth, drop_left, take_left,
      reverseLoop_encodeUtf8 _ (le_of_succ_le_succ h), ← hb, reverse_cons, encodeUtf8_append,
      encodeUtf8_cons, encodeUtf8_nil, append_nil, append_assoc]

theorem isPrefixOf_encodeUtf8 (ds cs : List Char) :
    (encodeUtf8 ds).isPrefixOf (encodeUtf8 cs) = ds.isPrefixOf cs := by
  rw [Bool.eq_iff_iff, isPrefixOf_iff_prefix, isPrefixOf_iff_prefix, encodeUtf8_prefix_iff]

/-- Every operation on the `Str` with the given bytes is the one on `chars`.  Places out of range
fail exactly where the list has no such place; a prefix is not found past the end. -/
structure TextOf (data : Bytes) (chars : List Char) : Prop where
  len : len (.str data) = .ok (valueSize chars.length)
  index : ∀ (n : NatBig) (c : Char), chars[n.toNat]? = some c →
    indexGet (.str data) (.nat n) = .ok (.str (encodeUtf8 [c]))
  indexFails : ∀ n : NatBig, chars[n.toNat]? = none →
    ∃ message, indexGet (.str data) (.nat n) = .error (request message)
  slice : ∀ m n : NatBig, slice (.str data) (.nat m) (.nat n) =
    if m.toNat ≤ n.toNat ∧ n.toNat ≤ chars.length then
      .ok (.str (encodeUtf8 ((chars.drop m.toNat).take (n.toNat - m.toNat))))
    else .error (request "VM trap: invalid string slice")
  startsWith : ∀ ds, startsWith (.str data) (.str (encodeUtf8 ds)) =
    .ok (.bool (ds.isPrefixOf chars))
  startsWithAt : ∀ ds (n : NatBig), startsWithAt (.str data) (.str (encodeUtf8 ds)) (.nat n) =
    .ok (.bool (decide (n.toNat ≤ chars.length) && ds.isPrefixOf (chars.drop n.toNat)))
  reverse : reverse (.str data) = .ok (.str (encodeUtf8 chars.reverse))

theorem textOf_encodeUtf8 {chars : List Char} (hsize : (encodeUtf8 chars).length ≤ sizeMax) :
    TextOf (encodeUtf8 chars) chars := by
  have hle := (length_le_encodeUtf8 chars).trans hsize
  refine ⟨?_, fun n c hc => ?_, fun n hn => ?_, fun m n => ?_, fun ds => ?_, fun ds n => ?_, ?_⟩
  · rw [len, utf8Characters_encodeUtf8]
  · obtain ⟨hlt, hget⟩ := List.getElem?_eq_some_iff.mp hc
    have hone : (chars.drop n.toNat).take 1 = [c] := by
      rw [List.drop_eq_getElem_cons hlt, hget]
      rfl
    have hextract := @encodeUtf8_extract chars _ _ (le_add_right n.toNat 1)
    rw [Nat.add_sub_cancel_left, hone] at hextract
    simp [indexGet, valueIndex_nat, if_pos (hlt.le.trans hle), utf8Offset_encodeUtf8, if_pos hlt,
      hextract]
  · rw [List.getElem?_eq_none_iff] at hn
    simp only [indexGet, valueIndex_nat]
    by_cases hfit : n.toNat ≤ sizeMax
    · simp only [if_pos hfit, utf8Offset_encodeUtf8, if_neg (not_lt.mpr hn)]
      exact ⟨_, rfl⟩
    · simp only [if_neg hfit]
      exact ⟨_, rfl⟩
  · simp only [slice, valueIndex_nat, utf8Characters_encodeUtf8, sliceOffset_encodeUtf8]
    by_cases hin : m.toNat ≤ n.toNat ∧ n.toNat ≤ chars.length
    · simp [if_pos (hin.1.trans (hin.2.trans hle)), if_pos (hin.2.trans hle),
        if_neg (show ¬ (n.toNat < m.toNat ∨ chars.length < n.toNat) by omega),
        if_pos (hin.1.trans hin.2), if_pos hin.2, if_pos hin, encodeUtf8_extract hin.1]
    rw [if_neg hin]
    have hout : n.toNat < m.toNat ∨ chars.length < n.toNat := by omega
    by_cases hm : m.toNat ≤ sizeMax
    · by_cases hn : n.toNat ≤ sizeMax
      · simp only [if_pos hm, if_pos hn, if_pos hout]
      · simp only [if_pos hm, if_neg hn]
    · simp only [if_neg hm]
  · rw [startsWith, isPrefixOf_encodeUtf8]
  · by_cases hn : n.toNat ≤ chars.length
    · simp [startsWithAt, valueIndex_nat, if_pos (hn.trans hle), sliceOffset_encodeUtf8, if_pos hn,
        drop_offsetOf, isPrefixOf_encodeUtf8, decide_eq_true hn]
    have hnone : (valueIndex (.nat n)).bind (sliceOffset (encodeUtf8 chars)) = none := by
      rw [valueIndex_nat]
      split_ifs
      · exact (sliceOffset_encodeUtf8 chars n.toNat).trans (if_neg hn)
      · rfl
    simp [startsWithAt, hnone, decide_eq_false hn]
  · rw [reverse, reverseLoop_encodeUtf8 _ (length_le_encodeUtf8 chars), List.append_nil]

/-- The operations on a `Str` that the VM built from valid UTF-8 are those of its code points. -/
theorem text_operations_exact (data : Bytes) (hvalid : utf8 data)
    (hsize : data.length ≤ sizeMax) : ∃ chars, data = encodeUtf8 chars ∧ TextOf data chars := by
  obtain ⟨chars, rfl⟩ := exists_chars hvalid
  exact ⟨chars, rfl, textOf_encodeUtf8 hsize⟩

theorem text_operations_exact_accent :
    ∃ chars, ([97, 195, 169] : Bytes) = encodeUtf8 chars ∧ TextOf [97, 195, 169] chars :=
  text_operations_exact [97, 195, 169] (by decide +kernel) (by decide)

/-! ## Order -/

theorem compareBytes_eq : ∀ a b : Bytes,
    compareBytes a b = if a < b then -1 else if a = b then 0 else 1
  | [], [] | [], _ :: _ | _ :: _, [] => by simp [compareBytes]
  | x :: a, y :: b => by
    rw [compareBytes, compareBytes_eq a b]
    simp only [cons_lt_cons_iff, cons.injEq]
    by_cases hxy : x = y
    · simp [hxy]
    · simp [hxy]

theorem compareBytes_encodeUtf8 (cs ds : List Char) :
    compareBytes (encodeUtf8 cs) (encodeUtf8 ds) =
      if cs < ds then -1 else if cs = ds then 0 else 1 := by
  rw [compareBytes_eq]
  simp only [encodeUtf8_lt_iff, encodeUtf8_inj]

/-- The comparisons of two texts are those of their lists of code points, which are ordered
lexicographically; `==` is their equality. -/
theorem text_order_exact (a b : Bytes) (ha : utf8 a) (hb : utf8 b) :
    ∃ cs ds : List Char, a = encodeUtf8 cs ∧ b = encodeUtf8 ds ∧
      Answers 7 (.str a) (.str b) (cs < ds) ∧ Answers 8 (.str a) (.str b) (cs ≤ ds) ∧
      Answers 9 (.str a) (.str b) (cs > ds) ∧ Answers 10 (.str a) (.str b) (cs ≥ ds) ∧
      Answers 5 (.str a) (.str b) (cs = ds) ∧ Answers 6 (.str a) (.str b) (cs ≠ ds) := by
  obtain ⟨cs, rfl⟩ := exists_chars ha
  obtain ⟨ds, rfl⟩ := exists_chars hb
  obtain ⟨h7, h8, h9, h10⟩ :=
    answers_order (a := .str (encodeUtf8 cs)) (b := .str (encodeUtf8 ds)) rfl rfl
  obtain ⟨h5, h6⟩ := answers_equal (a := .str (encodeUtf8 cs)) rfl (.str (encodeUtf8 ds))
  have heq : valueEqual (.str (encodeUtf8 cs)) (.str (encodeUtf8 ds)) = true ↔ cs = ds := by
    rw [valueEqual, beq_iff_eq, encodeUtf8_inj]
  rw [compareBytes_encodeUtf8] at h7 h8 h9 h10
  refine ⟨cs, ds, rfl, rfl, h7.congr ?_, h8.congr ?_, h9.congr ?_, h10.congr ?_, h5.congr heq,
    h6.congr (not_congr heq)⟩
  all_goals
    rcases lt_trichotomy cs ds with h | h | h
    · simp [h, h.le, h.not_gt]
    · simp [h]
    · simp [h, h.le, h.not_gt, h.ne']

theorem text_order_exact_accent : ∃ cs ds : List Char, ([122] : Bytes) = encodeUtf8 cs ∧
    ([195, 169] : Bytes) = encodeUtf8 ds ∧ Answers 7 (.str [122]) (.str [195, 169]) (cs < ds) := by
  obtain ⟨cs, ds, ha, hb, h, _⟩ :=
    text_order_exact [122] [195, 169] (by decide +kernel) (by decide +kernel)
  exact ⟨cs, ds, ha, hb, h⟩

end Panackelty.Vm
