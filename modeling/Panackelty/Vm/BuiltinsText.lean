import Panackelty.Codepoints
import Panackelty.Vm.BigintText
import Panackelty.Vm.Execute

/-!
# `vm/builtins_text.c`, `vm/builtins_collections.c`: texts, bytes and collections

The builtins of the language itself, which compute their value from their arguments alone.  Each of
them first asks for the kinds of its arguments, and traps where a value is out of its range.

* `builtinsTextCall`, `builtinsCollectionsCall`: the builtins.
* `utf8Offset_encodeUtf8`: the byte offsets are those of the code points.
-/

namespace Panackelty.Vm

open String (utf8EncodeChar)
open List

/-! ## Texts and bytes -/

/-- `len`. -/
def len : Value → Except Trap Value
  | .map items => .ok (valueSize (items.length / 2))
  | .set items => .ok (valueSize items.length)
  | .str data => .ok (valueSize (utf8Characters data))
  | .bytes data => .ok (valueSize data.length)
  | .array items => .ok (valueSize items.length)
  | _ => .error (fatal "VM trap: len requires Str, Bytes, Array, Map, or Set")

/-- `concat`. -/
def concat : Value → Value → Except Trap Value
  | .array a, .array b => .ok (.array (a ++ b))
  | _, _ => .error (fatal "VM trap: concat requires arrays")

/-- Where a character starts, or the end of the text for the place after the last one. -/
def sliceOffset (data : Bytes) (index : ℕ) : Option ℕ :=
  if index = utf8Characters data then some data.length
  else (utf8Offset data index).map Prod.fst

/-- `slice`. -/
def slice : Value → Value → Value → Except Trap Value
  | .str data, .nat from', .nat to' =>
    match valueIndex (.nat from'), valueIndex (.nat to') with
    | some start, some stop =>
      if stop < start ∨ utf8Characters data < stop then
        .error (request "VM trap: invalid string slice")
      else
        match sliceOffset data start, sliceOffset data stop with
        | some bs, some be => .ok (.str ((data.drop bs).take (be - bs)))
        | _, _ => .error outOfMemory
    | _, _ => .error (request "VM trap: invalid string slice")
  | _, _, _ => .error (fatal "VM trap: slice requires Str and Nat bounds")

/-- `starts_with`. -/
def startsWith : Value → Value → Except Trap Value
  | .str a, .str b => .ok (.bool (b.isPrefixOf a))
  | _, _ => .error (fatal "VM trap: starts_with requires Str")

/-- `starts_with_at`. -/
def startsWithAt : Value → Value → Value → Except Trap Value
  | .str a, .str b, .nat n =>
    match (valueIndex (.nat n)).bind (sliceOffset a) with
    | some bs => .ok (.bool (b.isPrefixOf (a.drop bs)))
    | none => .ok (.bool false)
  | .str _, .str _, _ => .error (fatal "VM trap: starts_with_at requires Nat offset")
  | _, _, _ => .error (fatal "VM trap: starts_with requires Str")

/-- The loop of `reverse`: each character goes in front of those before it. -/
def reverseLoop : ℕ → Bytes → Bytes → Bytes
  | 0, _, out | _ + 1, [], out => out
  | fuel + 1, c :: rest, out =>
    let width := 1 + utf8Trailing c
    reverseLoop fuel ((c :: rest).drop width) ((c :: rest).take width ++ out)

/-- `reverse`. -/
def reverse : Value → Except Trap Value
  | .str data => .ok (.str (reverseLoop data.length data []))
  | _ => .error (fatal "VM trap: reverse requires Str")

/-- `is_digit`, `is_letter` and `is_whitespace`: a test of a text of one byte. -/
def characterClass (test : UInt8 → Bool) : Value → Except Trap Value
  | .str data => .ok (.bool (test (if data.length = 1 then data.headD 0 else 0)))
  | _ => .error (fatal "VM trap: character class requires Str")

/-- `byte_append`. -/
def byteAppend : Value → Value → Except Trap Value
  | .bytes data, .nat n =>
    match valueIndex (.nat n) with
    | some byte =>
      if 255 < byte then .error (fatal "VM trap: byte value is outside 0..255")
      else .ok (.bytes (data ++ [UInt8.ofNat byte]))
    | none => .error (fatal "VM trap: byte value is outside 0..255")
  | _, _ => .error (fatal "VM trap: byte_append requires Bytes and Nat")

/-- `bytes_concat`. -/
def bytesConcat : Value → Value → Except Trap Value
  | .bytes a, .bytes b => .ok (.bytes (a ++ b))
  | _, _ => .error (fatal "VM trap: bytes_concat requires Bytes")

/-- `byte_len`. -/
def byteLen : Value → Except Trap Value
  | .bytes data => .ok (valueSize data.length)
  | _ => .error (fatal "VM trap: byte_len requires Bytes")

/-- `byte_get`. -/
def byteGet : Value → Value → Except Trap Value
  | .bytes data, .nat n =>
    match (valueIndex (.nat n)).bind fun i => data[i]? with
    | some byte => .ok (valueSize byte.toNat)
    | none => .error (request "VM trap: byte index is out of bounds")
  | _, _ => .error (fatal "VM trap: byte_get requires Bytes and Nat")

/-- `utf8_encode`. -/
def utf8Encode : Value → Except Trap Value
  | .str data => .ok (.bytes data)
  | _ => .error (fatal "VM trap: utf8_encode requires Str")

/-- `utf8_decode`. -/
def utf8Decode : Value → Except Trap Value
  | .bytes data =>
    if utf8 data then .ok (.str data) else .error (fatal "VM trap: invalid UTF-8")
  | _ => .error (fatal "VM trap: utf8_decode requires Bytes")

/-- What `pn_big_from_digits` reads under a positive sign is a `Nat`. -/
theorem pnBigReadDigits_nat {digits : Bytes} {n : PnBigInt}
    (h : pnBigReadDigits digits 1 = some n) : n.Normal ∧ 0 ≤ n.toInt := by
  by_cases hdig : ∀ c ∈ digits, IsDigit c
  · rw [pnBigReadDigits_eq hdig] at h
    cases h
    obtain ⟨hn, hval⟩ := pnBigFromDigits_spec (lt_of_mem_digits hdig) 1
    refine ⟨hn, ?_⟩
    rw [hval]
    simp
  · rw [pnBigReadDigits_eq_none (by simpa using hdig)] at h
    cases h

/-- `nat_from_str`. -/
def natFromStr : Value → Except Trap Value
  | .str data =>
    if data = [] then .error (fatal "VM trap: text is not a Nat")
    else if ∃ c ∈ data, c < 48 ∨ 57 < c then .error (fatal "VM trap: text is not a Nat")
    else
      match h : pnBigReadDigits data 1 with
      | none => .error outOfMemory
      | some n => .ok (.nat ⟨⟨n, (pnBigReadDigits_nat h).1⟩, (pnBigReadDigits_nat h).2⟩)
  | _ => .error (fatal "VM trap: nat_from_str requires Str")

/-- `builtins_text_call`. -/
def builtinsTextCall (name : BuiltinName) (a : List Value) : Except Trap Value :=
  match name with
  | .len => len (argument a 0)
  | .concat => concat (argument a 0) (argument a 1)
  | .slice => slice (argument a 0) (argument a 1) (argument a 2)
  | .startsWith => startsWith (argument a 0) (argument a 1)
  | .startsWithAt => startsWithAt (argument a 0) (argument a 1) (argument a 2)
  | .reverse => reverse (argument a 0)
  | .isDigit => characterClass (fun c => 48 ≤ c && c ≤ 57) (argument a 0)
  | .isLetter =>
    characterClass (fun c => (65 ≤ c && c ≤ 90) || (97 ≤ c && c ≤ 122)) (argument a 0)
  | .isWhitespace =>
    characterClass (fun c => c == 32 || c == 9 || c == 13 || c == 10) (argument a 0)
  | .byteAppend => byteAppend (argument a 0) (argument a 1)
  | .bytesConcat => bytesConcat (argument a 0) (argument a 1)
  | .byteLen => byteLen (argument a 0)
  | .byteGet => byteGet (argument a 0) (argument a 1)
  | .utf8Encode => utf8Encode (argument a 0)
  | .utf8Decode => utf8Decode (argument a 0)
  | .natFromStr => natFromStr (argument a 0)
  | _ => .error (fatal "VM trap: unknown builtin")

/-! ## Collections -/

/-- `append`. -/
def append : Value → Value → Except Trap Value
  | .array items, v => .ok (.array (items ++ [v]))
  | _, _ => .error (fatal "VM trap: append requires Array")

/-- The search of `map_get` in the keys and values, which starts at the last pair. -/
def mapFind (key : Value) : List Value → Option Value
  | k :: v :: rest =>
    match mapFind key rest with
    | some found => some found
    | none => if valueEqual k key then some v else none
  | _ => none

/-- The pairs of a map under another key. -/
def mapWithout (key : Value) : List Value → List Value
  | k :: v :: rest =>
    if valueEqual k key then mapWithout key rest else k :: v :: mapWithout key rest
  | _ => []

/-- `map_get` and `$method_get`. -/
def mapGet : Value → Value → Except Trap Value
  | .map items, key =>
    match mapFind key items with
    | some v => .ok v
    | none => .error (request "VM trap: map key was not found")
  | _, _ => .error (fatal "VM trap: map operation requires Map")

/-- `map_has`. -/
def mapHas : Value → Value → Except Trap Value
  | .map items, key => .ok (.bool (mapFind key items).isSome)
  | _, _ => .error (fatal "VM trap: map operation requires Map")

/-- `map_put` and `$method_put`. -/
def mapPut : Value → Value → Value → Except Trap Value
  | .map items, key, v => .ok (.map (mapWithout key items ++ [key, v]))
  | _, _, _ => .error (fatal "VM trap: map_put requires Map")

/-- `set_has`. -/
def setHas : Value → Value → Except Trap Value
  | .set items, v => .ok (.bool (items.any fun item => valueEqual item v))
  | _, _ => .error (fatal "VM trap: set_has requires Set")

/-- `$method_has`. -/
def methodHas : Value → Value → Except Trap Value
  | .map items, key => mapHas (.map items) key
  | .set items, v => setHas (.set items) v
  | _, _ => .error (fatal "VM trap: has requires Map or Set")

/-- `set_add` and `$method_add`. -/
def setAdd : Value → Value → Except Trap Value
  | .set items, v =>
    .ok (.set (if items.any fun item => valueEqual item v then items else items ++ [v]))
  | _, _ => .error (fatal "VM trap: set_add requires Set")

/-- `builtins_collections_call`. -/
def builtinsCollectionsCall (name : BuiltinName) (a : List Value) : Except Trap Value :=
  match name with
  | .append => append (argument a 0) (argument a 1)
  | .map => .ok (.map [])
  | .set => .ok (.set [])
  | .bytes => .ok (.bytes [])
  | .mapHas => mapHas (argument a 0) (argument a 1)
  | .mapGet | .dollarMethodGet => mapGet (argument a 0) (argument a 1)
  | .dollarMethodHas => methodHas (argument a 0) (argument a 1)
  | .mapPut | .dollarMethodPut => mapPut (argument a 0) (argument a 1) (argument a 2)
  | .setHas => setHas (argument a 0) (argument a 1)
  | .setAdd | .dollarMethodAdd => setAdd (argument a 0) (argument a 1)
  | _ => .error (fatal "VM trap: unknown builtin")

/-! ## The places of characters -/

theorem leading_iff (c : UInt8) :
    (c &&& 0xc0 != 0x80) = true ↔ ¬(128 ≤ c.toNat ∧ c.toNat ≤ 191) := by
  rw [bne_iff_ne, ne_eq, ← and_c0_eq_iff (UInt8.toNat_lt c), ← UInt8.toNat_inj, UInt8.toNat_and]
  rfl

theorem utf8Characters_cons (c : UInt8) (s : Bytes) : utf8Characters (c :: s) =
      utf8Characters s + (if 128 ≤ c.toNat ∧ c.toNat ≤ 191 then 0 else 1) := by
  unfold utf8Characters
  rw [countP_cons]
  by_cases h : 128 ≤ c.toNat ∧ c.toNat ≤ 191
  · rw [if_pos h, if_neg (fun hlead => (leading_iff c).mp hlead h)]
  · rw [if_neg h, if_pos ((leading_iff c).mpr h)]

theorem utf8Trailing_eq (c : UInt8) : utf8Trailing c =
    if c.toNat < 128 then 0 else if 192 ≤ c.toNat ∧ c.toNat ≤ 223 then 1
    else if 224 ≤ c.toNat ∧ c.toNat ≤ 239 then 2 else 3 := by
  have h1 : c &&& 0xe0 = 0xc0 ↔ 192 ≤ c.toNat ∧ c.toNat ≤ 223 := by
    rw [← and_e0_eq_iff (UInt8.toNat_lt c), ← UInt8.toNat_inj, UInt8.toNat_and]
    rfl
  have h2 : c &&& 0xf0 = 0xe0 ↔ 224 ≤ c.toNat ∧ c.toNat ≤ 239 := by
    rw [← and_f0_eq_iff (UInt8.toNat_lt c), ← UInt8.toNat_inj, UInt8.toNat_and]
    rfl
  have h0 : c < 0x80 ↔ c.toNat < 128 := UInt8.lt_iff_toNat_lt
  unfold utf8Trailing
  simp only [h0, h1, h2]

/-- The encoding of one scalar value: its first byte tells its length, and only the others continue
a character. -/
theorem utf8EncodeChar_spec (c : Char) : ∃ b tail, utf8EncodeChar c = b :: tail ∧
    utf8Trailing b = tail.length ∧ ¬ (128 ≤ b.toNat ∧ b.toNat ≤ 191) ∧
    ∀ x ∈ tail, 128 ≤ x.toNat ∧ x.toNat ≤ 191 := by
  rcases utf8EncodeChar_cases c with ⟨b0, he, hv, h0⟩ | ⟨b0, b1, he, hv, h0, h1⟩ |
    ⟨b0, b1, b2, he, hv, h0, h1, h2⟩ | ⟨b0, b1, b2, b3, he, hv, h0, h1, h2, h3⟩
  · exact ⟨_, _, he, by rw [utf8Trailing_eq, if_pos (by omega)]; rfl, by omega, by simp⟩
  · refine ⟨_, _, he, ?_, by omega, ?_⟩
    · rw [utf8Trailing_eq, if_neg (by omega), if_pos (by omega)]
      rfl
    · simp only [forall_mem_cons, not_mem_nil, false_implies, implies_true, and_true]
      omega
  · refine ⟨_, _, he, ?_, by omega, ?_⟩
    · rw [utf8Trailing_eq, if_neg (by omega), if_neg (by omega), if_pos (by omega)]
      rfl
    · simp only [forall_mem_cons, not_mem_nil, false_implies, implies_true, and_true]
      omega
  · refine ⟨_, _, he, ?_, by omega, ?_⟩
    · rw [utf8Trailing_eq, if_neg (by omega), if_neg (by omega), if_neg (by omega)]
      rfl
    · simp only [forall_mem_cons, not_mem_nil, false_implies, implies_true, and_true]
      omega

/-- The number of bytes before a place in the text. -/
def offsetOf (chars : List Char) (index : ℕ) : ℕ := (encodeUtf8 (chars.take index)).length

theorem utf8Characters_encodeUtf8 : ∀ chars : List Char,
    utf8Characters (encodeUtf8 chars) = chars.length
  | [] => rfl
  | c :: chars => by
    obtain ⟨b, tail, hb, _, hlead, htail⟩ := utf8EncodeChar_spec c
    have hzero : tail.countP (fun c => c &&& 0xc0 != 0x80) = 0 :=
      countP_eq_zero.mpr fun x hx => mt (leading_iff x).mp (not_not_intro (htail x hx))
    rw [encodeUtf8_cons, hb, cons_append, utf8Characters_cons, if_neg hlead, utf8Characters,
      countP_append, hzero, Nat.zero_add, length_cons, ← utf8Characters_encodeUtf8 chars]
    rfl

/-- The scan from the place of `left` finds the characters of `left`. -/
theorem utf8Scan_encodeUtf8 {chars : List Char} {index : ℕ} (hidx : index < chars.length) :
    ∀ {fuel : ℕ} (before left : List Char), chars = before ++ left → left.length < fuel →
      before.length ≤ index →
      utf8Scan (encodeUtf8 chars) index fuel before.length (encodeUtf8 before).length =
        some (offsetOf chars index, offsetOf chars (index + 1))
  | 0, _, _, _, h, _ => absurd h (Nat.not_lt_zero _)
  | fuel + 1, before, [], heq, _, hle => by
    rw [heq, List.append_nil] at hidx
    omega
  | fuel + 1, before, c :: left, heq, hfuel, hle => by
    obtain ⟨b, tail, hb, htrail, _⟩ := utf8EncodeChar_spec c
    have hsnoc : chars = (before ++ [c]) ++ left := by rw [heq, append_assoc]; rfl
    have hget : (encodeUtf8 chars)[(encodeUtf8 before).length]? = some b := by
      rw [heq, encodeUtf8_append, encodeUtf8_cons, hb, getElem?_append_right (Nat.le_refl _),
        Nat.sub_self]
      rfl
    have hnext : (encodeUtf8 before).length + 1 + utf8Trailing b =
        (encodeUtf8 (before ++ [c])).length := by
      rw [htrail, encodeUtf8_append, length_append, encodeUtf8_cons, hb, encodeUtf8_nil,
        append_nil, length_cons]
      omega
    rw [utf8Scan, hget]
    simp only [hnext]
    split_ifs with hhere
    · have hlen : (before ++ [c]).length = index + 1 := by rw [← hhere, length_append]; rfl
      rw [offsetOf, offsetOf, ← hlen, ← hhere]
      nth_rewrite 2 [hsnoc]
      rw [heq, take_left, take_left]
    · have hrest := @utf8Scan_encodeUtf8 _ _ hidx fuel (before ++ [c]) left hsnoc
        (Nat.lt_of_succ_lt_succ hfuel) (by rw [length_append, length_singleton]; omega)
      rwa [length_append] at hrest

theorem length_encodeUtf8_of_ascii : ∀ {chars : List Char},
    (∀ b ∈ encodeUtf8 chars, b.toNat < 128) →
    (encodeUtf8 chars).length = chars.length
  | [], _ => rfl
  | c :: chars, h => by
    obtain ⟨b, tail, hb, htrail, _⟩ := utf8EncodeChar_spec c
    rw [encodeUtf8_cons, hb] at h ⊢
    rw [utf8Trailing_eq, if_pos (h b (by simp))] at htrail
    have ih := length_encodeUtf8_of_ascii fun x hx => h x (mem_append_right (b :: tail) hx)
    rw [length_append, ih, length_cons, length_cons, ← htrail]
    omega

theorem utf8Offset_encodeUtf8 (chars : List Char) (index : ℕ) :
    utf8Offset (encodeUtf8 chars) index =
      if index < chars.length then some (offsetOf chars index, offsetOf chars (index + 1))
      else none := by
  rw [utf8Offset, utf8Characters_encodeUtf8]
  by_cases hidx : index < chars.length
  · rw [if_neg (by omega), if_pos hidx]
    split_ifs with hascii
    · have hoff : ∀ k ≤ chars.length, offsetOf chars k = k := fun k hk => by
        rw [offsetOf, length_encodeUtf8_of_ascii, length_take, Nat.min_eq_left hk]
        intro b hb
        rw [← take_append_drop k chars, encodeUtf8_append, all_append, Bool.and_eq_true] at hascii
        exact UInt8.lt_iff_toNat_lt.mp (of_decide_eq_true (all_eq_true.mp hascii.1 b hb))
      rw [hoff _ (by omega), hoff _ (by omega)]
    · have hlen := countP_le_length (p := fun c : UInt8 => c &&& 0xc0 != 0x80)
        (l := encodeUtf8 chars)
      rw [← utf8Characters, utf8Characters_encodeUtf8] at hlen
      exact utf8Scan_encodeUtf8 hidx [] chars rfl (by omega) (Nat.zero_le _)
  · rw [if_pos (by omega), if_neg hidx]

theorem sliceOffset_encodeUtf8 (chars : List Char) (index : ℕ) :
    sliceOffset (encodeUtf8 chars) index =
      if index ≤ chars.length then some (offsetOf chars index) else none := by
  rw [sliceOffset, utf8Characters_encodeUtf8, utf8Offset_encodeUtf8]
  by_cases hend : index = chars.length
  · rw [if_pos hend, if_pos (by omega), offsetOf, hend, take_length]
  rw [if_neg hend]
  by_cases hlt : index < chars.length
  · rw [if_pos hlt, if_pos (by omega)]
    rfl
  · rw [if_neg hlt, if_neg (by omega)]
    rfl

theorem sliceOffset_isSome {data : Bytes} (h : utf8 data) {index : ℕ}
    (hidx : index ≤ utf8Characters data) : ∃ place, sliceOffset data index = some place := by
  obtain ⟨chars, rfl⟩ := exists_chars h
  rw [utf8Characters_encodeUtf8] at hidx
  exact ⟨_, by rw [sliceOffset_encodeUtf8, if_pos hidx]⟩

end Panackelty.Vm
