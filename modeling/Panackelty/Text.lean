import Mathlib.Data.List.Lex
import Mathlib.Data.Nat.Bitwise
import Mathlib.Tactic.IntervalCases
import Mathlib.Order.RelClasses

/-!
# UTF-8 text

Both runtimes check text byte by byte: `vm/utf8.c` computes the code point and tests its range,
`project_model/utf8.panack` tests the ranges of the bytes.  Each is a loop whose round reads one
character, so each is given by that round (`utf8Step`, `validUtf8Step`) and the common loop `scan`.

* `utf8Step_eq_validUtf8Step`: one round of the two checks agrees on every input.
* `validUtf8_eq_utf8`: so the two checks agree.
* `Str`: text as both sides hold it, bytes that pass the check.
-/

namespace Panackelty

open List

/-- `Bytes` of the language, and the buffers of the virtual machine. -/
abbrev Bytes := List UInt8

variable {t : Bytes} {b : ℕ}

/-! ## The check of the virtual machine -/

/-- The inner loop `while (need--)` of `utf8`, which collects continuation bytes. -/
def utf8Tail : ℕ → ℕ → Bytes → Option (ℕ × Bytes)
  | 0, c, rest => some (c, rest)
  | _ + 1, _, [] => none
  | need + 1, c, b :: rest =>
    if b.toNat &&& 0xc0 = 0x80 then utf8Tail need ((c <<< 6) ||| (b.toNat &&& 0x3f)) rest
    else none

/-- The bytes that follow a leading byte, its payload bits and the least code point of the form. -/
def utf8Lead (c : ℕ) : Option (ℕ × ℕ × ℕ) :=
  if c &&& 0xe0 = 0xc0 then some (1, c &&& 0x1f, 0x80)
  else if c &&& 0xf0 = 0xe0 then some (2, c &&& 0x0f, 0x800)
  else if c &&& 0xf8 = 0xf0 then some (3, c &&& 7, 0x10000)
  else none

/-- One round of `utf8`: the input after one character, `none` where the check fails. -/
def utf8Step : Bytes → Option Bytes
  | [] => none
  | b :: rest =>
    if b.toNat < 0x80 then some rest
    else
      match utf8Lead b.toNat with
      | none => none
      | some (need, c, least) =>
        match utf8Tail need c rest with
        | none => none
        | some (c, rest) =>
          if c < least ∨ 0x10ffff < c ∨ (0xd800 ≤ c ∧ c ≤ 0xdfff) then none else some rest

/-- The outer loop of both checks.  Every round consumes a byte, so the length is enough fuel. -/
def scan (step : Bytes → Option Bytes) : ℕ → Bytes → Bool
  | _, [] => true
  | 0, _ :: _ => false
  | fuel + 1, b :: rest =>
    match step (b :: rest) with
    | none => false
    | some rest => scan step fuel rest

/-- `utf8`. -/
def utf8 (s : Bytes) : Bool := scan utf8Step s.length s

/-! ## The check of the toolchain -/

/-- `utf8_continuation`. -/
def utf8Continuation (value : ℕ) : Bool := 128 ≤ value && value ≤ 191

/-- The rest of a character that starts with a byte from `194` to `223`. -/
def validTwo : Bytes → Option Bytes
  | second :: rest => if utf8Continuation second.toNat then some rest else none
  | _ => none

/-- The rest of a character that starts with a byte from `224` to `239`. -/
def validThree (first : ℕ) : Bytes → Option Bytes
  | second :: third :: rest =>
    if (utf8Continuation second.toNat && (first ≠ 224 || 160 ≤ second.toNat) &&
        (first ≠ 237 || second.toNat ≤ 159)) && utf8Continuation third.toNat
    then some rest else none
  | _ => none

/-- The rest of a character that starts with a byte from `240` to `244`. -/
def validFour (first : ℕ) : Bytes → Option Bytes
  | second :: third :: fourth :: rest =>
    if (utf8Continuation second.toNat && (first ≠ 240 || 144 ≤ second.toNat) &&
        (first ≠ 244 || second.toNat ≤ 143)) && utf8Continuation third.toNat &&
        utf8Continuation fourth.toNat
    then some rest else none
  | _ => none

/-- One round of `valid_utf8`. -/
def validUtf8Step : Bytes → Option Bytes
  | [] => none
  | first :: rest =>
    if first.toNat ≤ 127 then some rest
    else if 194 ≤ first.toNat ∧ first.toNat ≤ 223 then validTwo rest
    else if 224 ≤ first.toNat ∧ first.toNat ≤ 239 then validThree first.toNat rest
    else if 240 ≤ first.toNat ∧ first.toNat ≤ 244 then validFour first.toNat rest
    else none

/-- `valid_utf8`. -/
def validUtf8 (data : Bytes) : Bool := scan validUtf8Step data.length data

/-! ## Agreement -/

theorem and_c0_eq_iff (h : b < 256) : b &&& 0xc0 = 0x80 ↔ 128 ≤ b ∧ b ≤ 191 := by
  interval_cases b <;> decide

theorem and_e0_eq_iff (h : b < 256) : b &&& 0xe0 = 0xc0 ↔ 192 ≤ b ∧ b ≤ 223 := by
  interval_cases b <;> decide

theorem and_f0_eq_iff (h : b < 256) : b &&& 0xf0 = 0xe0 ↔ 224 ≤ b ∧ b ≤ 239 := by
  interval_cases b <;> decide

theorem and_f8_eq_iff (h : b < 256) : b &&& 0xf8 = 0xf0 ↔ 240 ≤ b ∧ b ≤ 247 := by
  interval_cases b <;> decide

theorem and_low_eq_mod (b k : ℕ) : b &&& (2 ^ k - 1) = b % 2 ^ k :=
  Nat.and_two_pow_sub_one_eq_mod b k

theorem shift_or_payload (c b : ℕ) : (c <<< 6) ||| (b &&& 0x3f) = c * 64 + b % 64 := by
  have hb : b &&& 0x3f = b % 64 := and_low_eq_mod b 6
  have hlt : b % 64 < 2 ^ 6 := Nat.mod_lt _ (by decide)
  rw [hb, ← Nat.shiftLeft_add_eq_or_of_lt hlt, Nat.shiftLeft_eq]

theorem utf8Tail_cons (need c : ℕ) (b : UInt8) (rest : Bytes) : utf8Tail (need + 1) c (b :: rest) =
      if 128 ≤ b.toNat ∧ b.toNat ≤ 191 then utf8Tail need (c * 64 + b.toNat % 64) rest
      else none := by
  rw [utf8Tail, shift_or_payload]
  simp only [and_c0_eq_iff b.toNat_lt]

theorem utf8Lead_eq (b : UInt8) : utf8Lead b.toNat =
      if 192 ≤ b.toNat ∧ b.toNat ≤ 223 then some (1, b.toNat % 32, 0x80)
      else if 224 ≤ b.toNat ∧ b.toNat ≤ 239 then some (2, b.toNat % 16, 0x800)
      else if 240 ≤ b.toNat ∧ b.toNat ≤ 247 then some (3, b.toNat % 8, 0x10000)
      else none := by
  have h1 : b.toNat &&& 0x1f = b.toNat % 32 := and_low_eq_mod _ 5
  have h2 : b.toNat &&& 0x0f = b.toNat % 16 := and_low_eq_mod _ 4
  have h3 : b.toNat &&& 7 = b.toNat % 8 := and_low_eq_mod _ 3
  simp [utf8Lead, and_e0_eq_iff b.toNat_lt, and_f0_eq_iff b.toNat_lt, and_f8_eq_iff b.toNat_lt, h1,
    h2, h3]

theorem utf8Tail_zero (c : ℕ) (rest : Bytes) : utf8Tail 0 c rest = some (c, rest) := rfl

theorem utf8Tail_nil (need c : ℕ) : utf8Tail (need + 1) c [] = none := rfl

/-- Two-byte characters: an overlong form is a leading byte below `194`. -/
theorem twoByte_agree {b : UInt8} (h1 : 192 ≤ b.toNat) (h2 : b.toNat ≤ 223) (rest : Bytes) :
    utf8Step (b :: rest) = validUtf8Step (b :: rest) := by
  have hascii : ¬ b.toNat < 0x80 := by omega
  have hlead : utf8Lead b.toNat = some (1, b.toNat % 32, 0x80) := by
    rw [utf8Lead_eq, if_pos ⟨h1, h2⟩]
  rw [utf8Step, if_neg hascii, hlead, validUtf8Step, if_neg (by omega)]
  simp only
  rcases rest with _ | ⟨second, rest⟩
  · rw [utf8Tail_nil]
    split_ifs <;> rfl
  rw [utf8Tail_cons, utf8Tail_zero]
  simp only [validTwo, utf8Continuation, Bool.and_eq_true, decide_eq_true_eq]
  by_cases hs : 128 ≤ second.toNat ∧ second.toNat ≤ 191
  · simp only [if_pos hs]
    split_ifs <;> first | rfl | (exfalso; omega)
  · simp only [if_neg hs]
    split_ifs <;> first | rfl | (exfalso; omega)

/-- Three-byte characters: overlong forms and surrogates show in the second byte. -/
theorem threeByte_agree {b : UInt8} (h1 : 224 ≤ b.toNat) (h2 : b.toNat ≤ 239) (rest : Bytes) :
    utf8Step (b :: rest) = validUtf8Step (b :: rest) := by
  have hascii : ¬ b.toNat < 0x80 := by omega
  have hlead : utf8Lead b.toNat = some (2, b.toNat % 16, 0x800) := by
    rw [utf8Lead_eq, if_neg (by omega), if_pos ⟨h1, h2⟩]
  rw [utf8Step, if_neg hascii, hlead, validUtf8Step, if_neg (by omega), if_neg (by omega),
    if_pos ⟨h1, h2⟩]
  simp only
  rcases rest with _ | ⟨second, _ | ⟨third, rest⟩⟩
  · rfl
  · rw [utf8Tail_cons, utf8Tail_nil]
    split_ifs <;> rfl
  rw [utf8Tail_cons, utf8Tail_cons, utf8Tail_zero]
  simp only [validThree, utf8Continuation, Bool.and_eq_true, Bool.or_eq_true, decide_eq_true_eq]
  by_cases hs : 128 ≤ second.toNat ∧ second.toNat ≤ 191
  · by_cases ht : 128 ≤ third.toNat ∧ third.toNat ≤ 191
    · simp only [if_pos hs, if_pos ht]
      split_ifs <;> first | rfl | (exfalso; omega)
    · simp only [if_pos hs, if_neg ht]
      rw [if_neg (fun h => ht h.2)]
  · simp only [if_neg hs]
    rw [if_neg (fun h => hs h.1.1.1)]

/-- Four-byte characters: the range of code points shows in the second byte. -/
theorem fourByte_agree {b : UInt8} (h1 : 240 ≤ b.toNat) (h2 : b.toNat ≤ 247) (rest : Bytes) :
    utf8Step (b :: rest) = validUtf8Step (b :: rest) := by
  have hascii : ¬ b.toNat < 0x80 := by omega
  have hlead : utf8Lead b.toNat = some (3, b.toNat % 8, 0x10000) := by
    rw [utf8Lead_eq, if_neg (by omega), if_neg (by omega), if_pos ⟨h1, h2⟩]
  rw [utf8Step, if_neg hascii, hlead, validUtf8Step, if_neg (by omega), if_neg (by omega),
    if_neg (by omega)]
  simp only
  rcases rest with _ | ⟨second, _ | ⟨third, _ | ⟨fourth, rest⟩⟩⟩
  · rw [utf8Tail_nil]
    split_ifs <;> rfl
  · rw [utf8Tail_cons, utf8Tail_nil]
    split_ifs <;> rfl
  · rw [utf8Tail_cons, utf8Tail_cons, utf8Tail_nil]
    split_ifs <;> rfl
  rw [utf8Tail_cons, utf8Tail_cons, utf8Tail_cons, utf8Tail_zero]
  simp only [validFour, utf8Continuation, Bool.and_eq_true, Bool.or_eq_true, decide_eq_true_eq]
  by_cases hs : 128 ≤ second.toNat ∧ second.toNat ≤ 191
  · by_cases ht : 128 ≤ third.toNat ∧ third.toNat ≤ 191
    · by_cases hf : 128 ≤ fourth.toNat ∧ fourth.toNat ≤ 191
      · simp only [if_pos hs, if_pos ht, if_pos hf]
        split_ifs <;> first | rfl | (exfalso; omega)
      split_ifs with h4 h5
      · exact absurd h5.2 hf
      · rfl
      · rfl
    · simp only [if_pos hs, if_neg ht]
      split_ifs with h4 h5
      · exact absurd h5.1.2 ht
      · rfl
      · rfl
  · simp only [if_neg hs]
    split_ifs with h4 h5
    · exact absurd h5.1.1.1.1 hs
    · rfl
    · rfl

theorem utf8Step_eq_validUtf8Step (s : Bytes) : utf8Step s = validUtf8Step s := by
  rcases s with _ | ⟨b, rest⟩
  · rfl
  by_cases h2 : 192 ≤ b.toNat ∧ b.toNat ≤ 223
  · exact twoByte_agree h2.1 h2.2 rest
  by_cases h3 : 224 ≤ b.toNat ∧ b.toNat ≤ 239
  · exact threeByte_agree h3.1 h3.2 rest
  by_cases h4 : 240 ≤ b.toNat ∧ b.toNat ≤ 247
  · exact fourByte_agree h4.1 h4.2 rest
  -- an ASCII byte, or a byte that starts no character
  have hlead : utf8Lead b.toNat = none := by rw [utf8Lead_eq, if_neg h2, if_neg h3, if_neg h4]
  rw [utf8Step, hlead, validUtf8Step, if_neg (show ¬ (194 ≤ b.toNat ∧ b.toNat ≤ 223) by omega),
    if_neg h3, if_neg (show ¬ (240 ≤ b.toNat ∧ b.toNat ≤ 244) by omega)]
  split_ifs <;> first | rfl | omega

theorem validUtf8_eq_utf8 (s : Bytes) : validUtf8 s = utf8 s := by
  have hstep : validUtf8Step = utf8Step := funext fun t => (utf8Step_eq_validUtf8Step t).symm
  rw [validUtf8, utf8, hstep]

/-! ## Concatenation -/

theorem utf8Tail_append : ∀ {need c c' : ℕ} {s rest : Bytes},
    utf8Tail need c s = some (c', rest) → utf8Tail need c (s ++ t) = some (c', rest ++ t)
  | 0, _, _, _, _, h => by
    simp only [utf8Tail_zero, Option.some.injEq, Prod.mk.injEq] at h ⊢
    exact ⟨h.1, by rw [h.2]⟩
  | _ + 1, _, _, [], _, h => by
    rw [utf8Tail_nil] at h
    cases h
  | need + 1, c, c', b :: s, rest, h => by
    rw [utf8Tail_cons] at h
    rw [cons_append, utf8Tail_cons]
    split_ifs at h ⊢
    exact utf8Tail_append h

theorem utf8Step_append {s rest : Bytes} (h : utf8Step s = some rest) :
    utf8Step (s ++ t) = some (rest ++ t) := by
  rcases s with _ | ⟨b, s⟩
  · cases h
  rw [utf8Step] at h
  rw [cons_append, utf8Step]
  split_ifs at h ⊢ with hascii
  · cases h
    rfl
  rcases hlead : utf8Lead b.toNat with _ | ⟨need, c, least⟩
  · simp [hlead] at h
  simp only [hlead] at h ⊢
  rcases htail : utf8Tail need c s with _ | ⟨c', rest'⟩
  · simp [htail] at h
  simp only [htail] at h
  simp only [utf8Tail_append htail]
  split_ifs at h ⊢
  cases h
  rfl

theorem scan_mono {step : Bytes → Option Bytes} (extra : ℕ) : ∀ {fuel : ℕ} {s : Bytes},
    scan step fuel s = true → scan step (fuel + extra) s = true
  | _, [], _ => by rw [scan]
  | 0, _ :: _, h => by
    rw [scan] at h
    cases h
  | fuel + 1, b :: s, h => by
    rw [scan] at h
    rw [Nat.add_right_comm, scan]
    cases hstep : step (b :: s) with
    | none => simp [hstep] at h
    | some rest =>
      simp only [hstep] at h ⊢
      exact scan_mono extra h

theorem scan_append {k : ℕ} (ht : scan utf8Step k t) :
    ∀ {fuel : ℕ} {s : Bytes}, scan utf8Step fuel s = true → scan utf8Step (fuel + k) (s ++ t) = true
  | fuel, [], _ => by
    rw [nil_append, Nat.add_comm]
    exact scan_mono fuel ht
  | 0, _ :: _, h => by
    rw [scan] at h
    cases h
  | fuel + 1, b :: s, h => by
    rw [scan] at h
    rw [Nat.add_right_comm, cons_append, scan]
    rcases hstep : utf8Step (b :: s) with _ | rest
    · simp [hstep] at h
    have hcat := utf8Step_append (t := t) hstep
    rw [cons_append] at hcat
    simp only [hstep] at h
    simp only [hcat]
    exact scan_append ht h

theorem utf8_append {s : Bytes} (hs : utf8 s) (ht : utf8 t) :
    utf8 (s ++ t) = true := by
  rw [utf8, length_append]
  exact scan_append ht hs

/-! ## Text -/

/-- Text of the language: bytes that pass the UTF-8 check. -/
structure Str where
  bytes : Bytes
  valid : utf8 bytes = true
  deriving DecidableEq

namespace Str

variable {s : Str}

theorem ext_bytes {t : Str} (h : s.bytes = t.bytes) : s = t := by
  cases s
  cases t
  congr

theorem utf8_nil : utf8 [] = true := rfl

theorem scan_of_ascii : ∀ {fuel : ℕ} {s : Bytes}, s.length ≤ fuel → (∀ b ∈ s, b.toNat < 128) →
    scan utf8Step fuel s = true
  | _, [], _, _ => by rw [scan]
  | 0, _ :: _, hlen, _ => absurd hlen (by simp)
  | fuel + 1, b :: rest, hlen, h => by
    have hb : b.toNat < 0x80 := h b mem_cons_self
    rw [scan, utf8Step, if_pos hb]
    exact scan_of_ascii (by simpa using hlen) fun c hc => h c (mem_cons_of_mem _ hc)

theorem utf8_of_ascii {s : Bytes} (h : ∀ b ∈ s, b.toNat < 128) : utf8 s = true :=
  scan_of_ascii le_rfl h

/-- The bytes of a text literal of the source, which is ASCII. -/
def asciiBytes (s : String) : Bytes :=
  s.toByteArray.data.toList.map fun b => UInt8.ofNat (b.toNat % 128)

theorem asciiBytes_lt (s : String) : ∀ b ∈ asciiBytes s, b.toNat < 128 := by
  intro b hb
  obtain ⟨c, _, rfl⟩ := mem_map.mp hb
  rw [UInt8.toNat_ofNat']
  omega

/-- A text literal of the source. -/
def ascii (s : String) : Str := ⟨asciiBytes s, utf8_of_ascii (asciiBytes_lt s)⟩

/-- The empty text. -/
def empty : Str := ⟨[], utf8_nil⟩

/-- Concatenation, as text interpolation builds it. -/
def append (s t : Str) : Str := ⟨s.bytes ++ t.bytes, utf8_append s.valid t.valid⟩

instance : Append Str := ⟨append⟩

/-- Text is ordered by its bytes. -/
instance : LT Str := ⟨fun s t => s.bytes < t.bytes⟩

instance (s t : Str) : Decidable (s < t) := inferInstanceAs (Decidable (s.bytes < t.bytes))

theorem lt_irrefl (s : Str) : ¬ s < s := List.lt_irrefl s.bytes

theorem lt_trans {r t : Str} (h : r < s) (h' : s < t) : r < t := List.lt_trans h h'

theorem lt_of_not_lt {t : Str} (h : ¬ s < t) (hne : s ≠ t) : t < s := by
  by_contra hts
  exact hne (ext_bytes (List.le_antisymm (List.not_lt.mp hts) (List.not_lt.mp h)))

/-- The characters of a text, each with its bytes: a byte that continues none starts one. -/
def characters (s : Str) : List Bytes :=
  (s.bytes.foldr (fun b (pending, done) =>
    if b.toNat &&& 0xc0 = 0x80 then (b :: pending, done) else ([], (b :: pending) :: done))
    (([] : Bytes), ([] : List Bytes))).2

theorem characters_of_ascii (h : ∀ b ∈ s.bytes, b.toNat < 128) :
    s.characters = s.bytes.map fun b => [b] := by
  have hfold : ∀ t : Bytes, (∀ b ∈ t, b.toNat < 128) →
      t.foldr (fun b (acc : Bytes × List Bytes) => if b.toNat &&& 0xc0 = 0x80 then
        (b :: acc.1, acc.2) else ([], (b :: acc.1) :: acc.2)) ([], []) =
      ([], t.map fun b => [b]) := by
    intro t ht
    induction t with
    | nil => rfl
    | cons b t ih =>
      have hb : ¬ b.toNat &&& 0xc0 = 0x80 := by
        have := ht b mem_cons_self
        rw [and_c0_eq_iff b.toNat_lt]
        omega
      rw [foldr_cons, ih fun c hc => ht c (mem_cons_of_mem _ hc), if_neg hb]
      rfl
  exact congrArg Prod.snd (hfold s.bytes h)

/-- `text.len()`. -/
def len (s : Str) : ℕ := s.characters.length

theorem head_not_continuation {b : UInt8} {rest : Bytes} (h : utf8 (b :: rest) = true) :
    ¬ b.toNat &&& 0xc0 = 0x80 := by
  rw [and_c0_eq_iff b.toNat_lt]
  rintro ⟨hlow, hhigh⟩
  have hnone : utf8Step (b :: rest) = none := by
    rw [utf8Step_eq_validUtf8Step, validUtf8Step, if_neg (by omega), if_neg (by omega),
      if_neg (by omega), if_neg (by omega)]
  rw [utf8, length_cons, scan, hnone] at h
  cases h

theorem len_eq_zero_iff : s.len = 0 ↔ s = empty := by
  constructor
  · intro h
    obtain ⟨bytes, valid⟩ := s
    cases bytes with
    | nil => rfl
    | cons b rest =>
      rw [len, characters, foldr_cons] at h
      simp [head_not_continuation valid] at h
  · rintro rfl
    rfl

theorem len_pos_iff : 0 < s.len ↔ s ≠ empty := by
  rw [Ne, ← len_eq_zero_iff, Nat.pos_iff_ne_zero]

theorem append_ne_empty (h : s ≠ empty) (t : Str) : s ++ t ≠ empty := by
  intro heq
  have hbytes : s.bytes ++ t.bytes = [] := congrArg Str.bytes heq
  exact h (ext_bytes (append_eq_nil_iff.mp hbytes).1)

end Str

end Panackelty
