import Panackelty.Text
import Mathlib.Data.Char

/-!
# Text as code points

The bytes that both checks accept are the UTF-8 encodings of lists of Unicode scalar values, which
are Lean's `Char`.

* `validUtf8Step_eq_some_iff`: one round of the check reads the encoding of one scalar value.
* `utf8_iff_encoding`: so a text that passes is the encoding of a list of them.
-/

namespace Panackelty

open String (utf8EncodeChar)
open List

/-- The UTF-8 encoding of a list of scalar values. -/
def encodeUtf8 (chars : List Char) : Bytes := chars.flatMap utf8EncodeChar

@[simp] theorem encodeUtf8_nil : encodeUtf8 [] = [] := rfl

@[simp] theorem encodeUtf8_cons (c : Char) (chars : List Char) :
    encodeUtf8 (c :: chars) = utf8EncodeChar c ++ encodeUtf8 chars := rfl

@[simp] theorem encodeUtf8_append (cs ds : List Char) :
    encodeUtf8 (cs ++ ds) = encodeUtf8 cs ++ encodeUtf8 ds := flatMap_append

/-- The four forms of an encoding, with the values of their bytes. -/
theorem utf8EncodeChar_cases (c : Char) :
    (∃ b0, utf8EncodeChar c = [b0] ∧ c.toNat ≤ 127 ∧ b0.toNat = c.toNat) ∨
    (∃ b0 b1, utf8EncodeChar c = [b0, b1] ∧ (127 < c.toNat ∧ c.toNat ≤ 2047) ∧
      b0.toNat = c.toNat / 64 + 192 ∧ b1.toNat = c.toNat % 64 + 128) ∨
    (∃ b0 b1 b2, utf8EncodeChar c = [b0, b1, b2] ∧
      (2047 < c.toNat ∧ c.toNat ≤ 65535 ∧ ¬ (55296 ≤ c.toNat ∧ c.toNat ≤ 57343)) ∧
      b0.toNat = c.toNat / 4096 + 224 ∧ b1.toNat = c.toNat / 64 % 64 + 128 ∧
      b2.toNat = c.toNat % 64 + 128) ∨
    ∃ b0 b1 b2 b3, utf8EncodeChar c = [b0, b1, b2, b3] ∧ (65535 < c.toNat ∧ c.toNat < 1114112) ∧
      b0.toNat = c.toNat / 262144 + 240 ∧ b1.toNat = c.toNat / 4096 % 64 + 128 ∧
      b2.toNat = c.toNat / 64 % 64 + 128 ∧ b3.toNat = c.toNat % 64 + 128 := by
  have hv : c.toNat.isValidChar := c.valid
  have hval : c.val.toNat = c.toNat := rfl
  simp only [utf8EncodeChar, hval]
  generalize c.toNat = v at hv
  have hbyte : ∀ {n m k : ℕ}, n + k < 256 → n = m → (UInt8.ofNat (n + k)).toNat = m + k := by
    rintro n m k hlt rfl
    rw [UInt8.toNat_ofNat', Nat.mod_eq_of_lt hlt]
  split_ifs with h1 h2 h3
  · exact Or.inl ⟨_, rfl, h1, hbyte (k := 0) (by omega) rfl⟩
  · exact Or.inr (Or.inl ⟨_, _, rfl, by omega, hbyte (by omega) (by omega), hbyte (by omega) rfl⟩)
  · exact Or.inr (Or.inr (Or.inl ⟨_, _, _, rfl, by omega, hbyte (by omega) (by omega),
      hbyte (by omega) rfl, hbyte (by omega) rfl⟩))
  · exact Or.inr (Or.inr (Or.inr ⟨_, _, _, _, rfl, by omega, hbyte (by omega) (by omega),
      hbyte (by omega) rfl, hbyte (by omega) rfl, hbyte (by omega) rfl⟩))

/-- One round of the check reads the encoding of one scalar value. -/
theorem validUtf8Step_eq_some_iff {s rest : Bytes} :
    validUtf8Step s = some rest ↔ ∃ c, s = utf8EncodeChar c ++ rest := by
  constructor
  · intro h
    -- the scalar value is read off the payload bits
    have hread : ∀ (bytes : Bytes) (v : ℕ), v.isValidChar → (∀ c : Char, c.val.toNat = v →
        utf8EncodeChar c = bytes) → ∃ c, bytes ++ rest = utf8EncodeChar c ++ rest :=
      fun _ v hv hbytes => ⟨Char.ofNatAux v hv, by rw [hbytes _ rfl]⟩
    have hbyte : ∀ {n : ℕ} {a : UInt8}, n = a.toNat → UInt8.ofNat n = a := by
      rintro n a rfl
      exact UInt8.ofNat_toNat
    rcases s with _ | ⟨a0, s⟩
    · cases h
    simp only [validUtf8Step] at h
    split_ifs at h with h1 h2 h3 h4
    · cases h
      refine hread [a0] a0.toNat (by unfold Nat.isValidChar; omega) fun c hc => ?_
      simp [utf8EncodeChar, hc, if_pos h1]
    · rcases s with _ | ⟨a1, s⟩
      · cases h
      simp only [validTwo, utf8Continuation, Bool.and_eq_true, decide_eq_true_eq] at h
      split_ifs at h with hc1
      cases h
      refine hread [a0, a1] ((a0.toNat - 192) * 64 + (a1.toNat - 128))
        (by unfold Nat.isValidChar; omega) fun c hc => ?_
      simp only [utf8EncodeChar, hc]
      rw [if_neg (by omega), if_pos (by omega)]
      simp only [cons.injEq, and_true]
      exact ⟨hbyte (by omega), hbyte (by omega)⟩
    · rcases s with _ | ⟨a1, _ | ⟨a2, s⟩⟩
      · cases h
      · cases h
      simp only [validThree, utf8Continuation, Bool.and_eq_true, Bool.or_eq_true,
        decide_eq_true_eq] at h
      split_ifs at h with hc1
      cases h
      refine hread [a0, a1, a2] ((a0.toNat - 224) * 4096 + (a1.toNat - 128) * 64 + (a2.toNat - 128))
        (by unfold Nat.isValidChar; omega) fun c hc => ?_
      simp only [utf8EncodeChar, hc]
      rw [if_neg (by omega), if_neg (by omega), if_pos (by omega)]
      simp only [cons.injEq, and_true]
      exact ⟨hbyte (by omega), hbyte (by omega), hbyte (by omega)⟩
    · rcases s with _ | ⟨a1, _ | ⟨a2, _ | ⟨a3, s⟩⟩⟩
      · cases h
      · cases h
      · cases h
      simp only [validFour, utf8Continuation, Bool.and_eq_true, Bool.or_eq_true,
        decide_eq_true_eq] at h
      split_ifs at h with hc1
      cases h
      refine hread [a0, a1, a2, a3] ((a0.toNat - 240) * 262144 +
        (a1.toNat - 128) * 4096 + (a2.toNat - 128) * 64 + (a3.toNat - 128))
        (by unfold Nat.isValidChar; omega) fun c hc => ?_
      simp only [utf8EncodeChar, hc]
      rw [if_neg (by omega), if_neg (by omega), if_neg (by omega)]
      simp only [cons.injEq, and_true]
      exact ⟨hbyte (by omega), hbyte (by omega), hbyte (by omega), hbyte (by omega)⟩
  · rintro ⟨c, rfl⟩
    rcases utf8EncodeChar_cases c with ⟨b0, he, hv, h0⟩ | ⟨b0, b1, he, hv, h0, h1⟩ |
      ⟨b0, b1, b2, he, hv, h0, h1, h2⟩ | ⟨b0, b1, b2, b3, he, hv, h0, h1, h2, h3⟩ <;>
    simp only [he, cons_append, nil_append, validUtf8Step, validTwo, validThree,
      validFour, utf8Continuation, Bool.and_eq_true, Bool.or_eq_true, decide_eq_true_eq]
    · rw [if_pos (by omega)]
    · rw [if_neg (by omega), if_pos (by omega), if_pos (by omega)]
    · rw [if_neg (by omega), if_neg (by omega), if_pos (by omega), if_pos (by omega)]
    · rw [if_neg (by omega), if_neg (by omega), if_neg (by omega), if_pos (by omega),
        if_pos (by omega)]

theorem utf8Step_encode (c : Char) (rest : Bytes) :
    utf8Step (utf8EncodeChar c ++ rest) = some rest := by
  rw [utf8Step_eq_validUtf8Step, validUtf8Step_eq_some_iff]
  exact ⟨c, rfl⟩

theorem utf8EncodeChar_ne_nil (c : Char) : utf8EncodeChar c ≠ [] := by
  intro h
  have hstep := utf8Step_encode c []
  rw [h] at hstep
  cases hstep

theorem utf8_encodeUtf8 : ∀ chars : List Char, utf8 (encodeUtf8 chars) = true
  | [] => rfl
  | c :: chars => by
    refine utf8_append ?_ (utf8_encodeUtf8 chars)
    have hstep := utf8Step_encode c []
    rw [append_nil] at hstep
    unfold utf8
    rcases hbytes : utf8EncodeChar c with _ | ⟨b, bytes⟩
    · rfl
    rw [hbytes] at hstep
    rw [length_cons, scan, hstep]
    cases bytes <;> rfl

theorem exists_chars_of_scan : ∀ {fuel : ℕ} {s : Bytes}, scan utf8Step fuel s = true →
    ∃ chars, s = encodeUtf8 chars
  | _, [], _ => ⟨[], rfl⟩
  | 0, _ :: _, h => by cases h
  | fuel + 1, b :: s, h => by
    rw [scan] at h
    split at h
    · cases h
    next rest hstep =>
    rw [utf8Step_eq_validUtf8Step, validUtf8Step_eq_some_iff] at hstep
    obtain ⟨c, hc⟩ := hstep
    obtain ⟨chars, rfl⟩ := exists_chars_of_scan h
    exact ⟨c :: chars, hc⟩

theorem exists_chars {s : Bytes} (h : utf8 s) : ∃ chars, s = encodeUtf8 chars :=
  exists_chars_of_scan h

/-- The two checks agree, and a text passes exactly when it is the encoding of a list of Unicode
scalar values. -/
theorem utf8_iff_encoding (s : Bytes) : validUtf8 s = utf8 s ∧
    (utf8 s = true ↔ ∃ chars : List Char, s = chars.flatMap String.utf8EncodeChar) := by
  refine ⟨validUtf8_eq_utf8 s, exists_chars, ?_⟩
  rintro ⟨chars, rfl⟩
  exact utf8_encodeUtf8 chars

/-! ## Order -/

/-- Encodings of different scalar values differ in the order of the values, whatever follows. -/
theorem utf8EncodeChar_lt {c d : Char} (h : c < d) (x y : Bytes) :
    utf8EncodeChar c ++ x < utf8EncodeChar d ++ y := by
  have hlt : c.toNat < d.toNat := h
  rcases utf8EncodeChar_cases c with ⟨b0, he, hv, e0⟩ | ⟨b0, b1, he, hv, e0, e1⟩ |
    ⟨b0, b1, b2, he, hv, e0, e1, e2⟩ | ⟨b0, b1, b2, b3, he, hv, e0, e1, e2, e3⟩ <;>
  rcases utf8EncodeChar_cases d with ⟨d0, hd, hw, f0⟩ | ⟨d0, d1, hd, hw, f0, f1⟩ |
    ⟨d0, d1, d2, hd, hw, f0, f1, f2⟩ | ⟨d0, d1, d2, d3, hd, hw, f0, f1, f2, f3⟩ <;>
  simp only [he, hd, cons_append, nil_append, cons_lt_cons_iff,
    UInt8.lt_iff_toNat_lt, ← UInt8.toNat_inj] <;>
  omega

theorem utf8EncodeChar_append_inj {c d : Char} {x y : Bytes}
    (h : utf8EncodeChar c ++ x = utf8EncodeChar d ++ y) : c = d ∧ x = y := by
  rcases lt_trichotomy c d with hlt | rfl | hlt
  · exact absurd (h ▸ utf8EncodeChar_lt hlt x y) (List.lt_irrefl _)
  · exact ⟨rfl, append_cancel_left h⟩
  · exact absurd (h ▸ utf8EncodeChar_lt hlt y x) (List.lt_irrefl _)

theorem encodeUtf8_lt : ∀ {cs ds : List Char}, cs < ds → encodeUtf8 cs < encodeUtf8 ds
  | _, [], h => absurd h (not_lt_nil _)
  | [], d :: ds, _ => by
    rw [encodeUtf8_cons]
    rcases hd : utf8EncodeChar d with _ | ⟨b, tail⟩
    · exact absurd hd (utf8EncodeChar_ne_nil d)
    · exact nil_lt_cons _ _
  | c :: cs, d :: ds, h => by
    rcases cons_lt_cons_iff.mp h with hlt | ⟨rfl, hlt⟩
    · exact utf8EncodeChar_lt hlt _ _
    · exact append_left_lt (encodeUtf8_lt hlt)

theorem encodeUtf8_lt_iff {cs ds : List Char} : encodeUtf8 cs < encodeUtf8 ds ↔ cs < ds := by
  refine ⟨fun h => ?_, encodeUtf8_lt⟩
  rcases lt_trichotomy cs ds with hlt | rfl | hlt
  · exact hlt
  · exact absurd h (List.lt_irrefl _)
  · exact absurd (List.lt_trans h (encodeUtf8_lt hlt)) (List.lt_irrefl _)

theorem encodeUtf8_inj {cs ds : List Char} : encodeUtf8 cs = encodeUtf8 ds ↔ cs = ds := by
  refine ⟨fun h => ?_, fun h => h ▸ rfl⟩
  rcases lt_trichotomy cs ds with hlt | heq | hlt
  · exact absurd (h ▸ encodeUtf8_lt hlt) (List.lt_irrefl _)
  · exact heq
  · exact absurd (h ▸ encodeUtf8_lt hlt) (List.lt_irrefl _)

theorem encodeUtf8_prefix_iff : ∀ {ds cs : List Char}, encodeUtf8 ds <+: encodeUtf8 cs ↔ ds <+: cs
  | [], cs | d :: ds, [] => by simp
  | d :: ds, c :: cs => by
    rw [cons_prefix_cons, ← @encodeUtf8_prefix_iff ds cs]
    constructor
    · rintro ⟨t, ht⟩
      rw [encodeUtf8_cons, encodeUtf8_cons, append_assoc] at ht
      obtain ⟨hc, ht⟩ := utf8EncodeChar_append_inj ht
      exact ⟨hc, t, ht⟩
    · rintro ⟨rfl, h⟩
      exact prefix_append_right_inj _ |>.mpr h

end Panackelty
