import Panackelty.Bytecode.Decoder

/-!
# The reading phase computes the format's parser

* `ByteReader.view`: a reader is good while it is valid and within the artifact.
* `readConstant_reads`, `readInstruction_reads`, `readFunction_reads`: each function of the reading
  phase computes the parser of its row of the format.
* `readProgram_eq_ok_iff`: the phase accepts an artifact exactly when the format's parser accepts
  all of it and the function names are strictly ascending. -/

namespace Panackelty.Bytecode

open Library Library.Digits List Format Parser Codec Reads Str ConstantValue Option

variable {reader : ByteReader} {count : ℕ} {s : Bytes} {functions : List FunctionCode}
  {msg : Str} {sign : ℕ}

namespace ByteReader

/-- The good readers of an artifact, the failed ones, and what is not read yet. -/
def view (data : Bytes) : ReaderState UInt8 ByteReader where
  good reader := reader.valid = true ∧ reader.data = data ∧ reader.offset ≤ data.length
  bad reader := reader.valid = false
  rest reader := data.drop reader.offset

variable {data : Bytes}

@[simp]
theorem valid_invalidReader (reader : ByteReader) (msg : Str) :
    (reader.invalidReader msg).valid = false := by
  rw [invalidReader]
  split_ifs with h
  · rfl
  · exact Bool.eq_false_iff.mpr h

theorem bad_invalidReader (reader : ByteReader) (msg : Str) :
    (view data).bad (reader.invalidReader msg) :=
  valid_invalidReader reader msg

theorem bad_ite {c : Prop} [Decidable c] (h : (view data).bad reader) :
    (view data).bad (if c then reader.invalidReader msg else reader) := by
  split_ifs
  · exact bad_invalidReader _ _
  · exact h

theorem readerHas_iff (h : (view data).good reader) (count : ℕ) :
    reader.readerHas count = true ↔ count ≤ ((view data).rest reader).length := by
  obtain ⟨hvalid, hdata, hoff⟩ := h
  rw [readerHas, hvalid, hdata, Bool.true_and, decide_eq_true_eq]
  show _ ↔ count ≤ (data.drop reader.offset).length
  rw [length_drop]
  omega

theorem readerHas_of_bad (h : (view data).bad reader) (count : ℕ) :
    ¬ reader.readerHas count = true := by
  rw [readerHas, show reader.valid = false from h, Bool.false_and]
  exact Bool.false_ne_true

theorem good_advance (h : (view data).good reader)
    (hle : count ≤ ((view data).rest reader).length) :
    (view data).good (reader.advance count) ∧
      (view data).rest (reader.advance count) = ((view data).rest reader).drop count := by
  have hlen : count ≤ (data.drop reader.offset).length := hle
  rw [length_drop] at hlen
  refine ⟨⟨rfl, h.2.1, ?_⟩, ?_⟩
  · have := h.2.2
    simp only [advance]
    omega
  · show data.drop (reader.offset + count) = (data.drop reader.offset).drop count
    rw [drop_drop]

/-! ## Numbers and text -/

theorem reads_take {α β : Type} {R : α → β → Prop} {f : ByteReader → α} {default : α} {count : ℕ}
    {msg : Str} {g : Bytes → Option β}
    (h : ∀ reader, (view data).good reader → count ≤ ((view data).rest reader).length →
      ∃ b, g (((view data).rest reader).take count) = some b ∧ R (f reader) b) :
    Reads (view data) R
      (fun reader => if reader.readerHas count then (reader.advance count, f reader)
        else (reader.invalidReader msg, default))
      (pmap (block count).parse g) where
  stuck reader hbad := by
    rw [if_neg (readerHas_of_bad hbad count)]
    exact bad_invalidReader _ _
  agrees reader hgood := by
    by_cases hle : count ≤ ((view data).rest reader).length
    · obtain ⟨b, hb, hR⟩ := h reader hgood hle
      rw [if_pos ((readerHas_iff hgood count).mpr hle)]
      simp only [Parser.pmap, block, if_pos hle, hb, map_some]
      exact ⟨(good_advance hgood hle).1, (good_advance hgood hle).2, hR⟩
    · rw [if_neg fun hhas => hle ((readerHas_iff hgood count).mp hhas)]
      simp only [Parser.pmap, block, if_neg hle]
      exact bad_invalidReader _ _

theorem byteAt_add (data : Bytes) (off index : ℕ) :
    byteAt data (off + index) = byteAt (data.drop off) index := by
  rw [byteAt, byteAt, getD_eq_getElem?_getD, getD_eq_getElem?_getD, getElem?_drop]

theorem byteAt_offset (data : Bytes) (off : ℕ) : byteAt data off = byteAt (data.drop off) 0 :=
  byteAt_add data off 0

theorem bigEndian_take_one (h : 1 ≤ s.length) :
    byteAt s 0 = bigEndian 256 ((s.take 1).map UInt8.toNat) := by
  rcases s with _ | ⟨a, s⟩
  · simp at h
  · simp [byteAt, bigEndian]

theorem bigEndian_take_two (h : 2 ≤ s.length) :
    byteAt s 0 * 256 + byteAt s 1 = bigEndian 256 ((s.take 2).map UInt8.toNat) := by
  rcases s with _ | ⟨a, _ | ⟨b, s⟩⟩
  · simp at h
  · simp at h
  · simp [byteAt, bigEndian]

theorem bigEndian_take_four (h : 4 ≤ s.length) :
    byteAt s 0 * 16777216 + byteAt s 1 * 65536 + byteAt s 2 * 256 + byteAt s 3 =
      bigEndian 256 ((s.take 4).map UInt8.toNat) := by
  rcases s with _ | ⟨a, _ | ⟨b, _ | ⟨c, _ | ⟨d, s⟩⟩⟩⟩
  · simp at h
  · simp at h
  · simp at h
  · simp at h
  simp only [byteAt, bigEndian, getD_cons_zero, getD_cons_succ, take_succ_cons,
    take_zero, map_cons, map_nil, foldl_cons, foldl_nil]
  ring

theorem readU8_reads : Reads (view data) Eq readU8 u8.parse := by
  rw [u8_parse]
  refine reads_take fun reader hgood hle => ⟨_, rfl, ?_⟩
  rw [hgood.2.1, byteAt_offset]
  exact bigEndian_take_one hle

theorem readU16_reads : Reads (view data) Eq readU16 u16.parse := by
  rw [u16_parse]
  refine reads_take fun reader hgood hle => ⟨_, rfl, ?_⟩
  rw [hgood.2.1, byteAt_add, byteAt_offset]
  exact bigEndian_take_two hle

theorem readU32_reads : Reads (view data) Eq readU32 u32.parse := by
  rw [u32_parse]
  refine reads_take fun reader hgood hle => ⟨_, rfl, ?_⟩
  rw [hgood.2.1, byteAt_add, byteAt_add, byteAt_add, byteAt_offset]
  exact bigEndian_take_four hle

theorem copyLoop_eq (data : Bytes) : ∀ (remaining off : ℕ) (output : Bytes),
    off + remaining ≤ data.length →
    copyLoop data off remaining output = output ++ (data.drop off).take remaining
  | 0, off, output, _ => by simp [copyLoop]
  | remaining + 1, off, output, h => by
    have hlt : off < data.length := by omega
    rw [copyLoop, copyLoop_eq data remaining (off + 1) _ (by omega), append_assoc,
      getD_eq_getElem _ _ hlt, drop_eq_getElem_cons hlt, take_succ_cons]
    rfl

theorem readRaw_reads (count : ℕ) :
    Reads (view data) Eq (fun reader => reader.readRaw count) (block count).parse := by
  have hpmap : (block (σ := UInt8) count).parse = pmap (block count).parse some := by
    funext s
    cases h : (block (σ := UInt8) count).parse s <;> simp [Parser.pmap, h]
  refine (reads_take fun reader hgood hle => ⟨_, rfl, ?_⟩).congr hpmap
  change count ≤ (data.drop reader.offset).length at hle
  rw [length_drop] at hle
  have := hgood.2.2
  rw [hgood.2.1, copyLoop_eq _ _ _ _ (by omega), nil_append]
  rfl

/-- `decode_utf8` fails on text that is too long and on text that is not UTF-8. -/
theorem decodeUtf8_reads (count limit : ℕ) (label : Str) :
    Reads (view data) Eq (fun reader => reader.decodeUtf8 count limit label)
      (if count ≤ limit then pmap (block count).parse toStr else fun _ => none) := by
  by_cases hlim : count ≤ limit
  · have hraw : Reads (view data) Eq _ _ := readRaw_reads count
    rw [if_pos hlim]
    have hstuck (reader : ByteReader) (hbad : (view data).bad (reader.readRaw count).1) :
        (view data).bad (reader.decodeUtf8 count limit label).1 := by
      simp only [decodeUtf8, if_neg (not_lt.mpr hlim)]
      split_ifs
      · exact hbad
      · exact bad_invalidReader _ _
      · exact hbad
    refine ⟨fun reader hbad => hstuck _ (hraw.stuck reader hbad), fun reader hgood => ?_⟩
    rcases hraw.outcome hgood with ⟨hp, hbad⟩ | ⟨b, hp, hgood', hval⟩
    · simp only [Parser.pmap, hp]
      exact hstuck _ hbad
    have hvalid : (reader.readRaw count).1.valid := hgood'.1
    simp only [decodeUtf8, if_neg (not_lt.mpr hlim), Parser.pmap, hp, hvalid, true_and, if_true,
      toStr, hval, validUtf8_eq_utf8]
    split_ifs
    · exact ⟨hgood', rfl, rfl⟩
    · exact bad_invalidReader _ _
  · rw [if_neg hlim]
    refine Reads.fail fun reader => ?_
    simp only [decodeUtf8, if_pos (not_le.mp hlim)]
    exact bad_invalidReader _ _

theorem readName_reads : Reads (view data) Eq readName name.parse :=
  (bind_eq readU16_reads fun count => decodeUtf8_reads count 1024 _).congr
    (pmap_counted u16 1024 toStr)

theorem readText_reads : Reads (view data) Eq readText text.parse :=
  (bind_eq readU32_reads fun count => decodeUtf8_reads count 1048576 _).congr
    (pmap_counted u32 1048576 toStr)

theorem natDigitLoop_eq (left count : ℕ) :
    natDigitLoop left count = count + (Nat.digits 10 left).length := by
  induction left using Nat.strong_induction_on generalizing count with
  | _ left ih =>
    rw [natDigitLoop]
    split_ifs with h
    · rw [ih (left / 10) (Nat.div_lt_self h (by decide)),
        Nat.digits_def' (by decide) h, length_cons]
      omega
    · have h0 : left = 0 := by omega
      simp [h0]

theorem natDigitCount_eq (value : ℕ) : natDigitCount value = digitCount value := by
  rw [natDigitCount, digitCount]
  split_ifs with h
  · simp [h]
  have hpos : 0 < (Nat.digits 10 value).length :=
    length_pos_of_ne_nil (Nat.digits_ne_nil_iff_ne_zero.mpr h)
  rw [natDigitLoop_eq]
  omega

theorem byteAt_zero_iff {b : Bytes} : 0 < b.length ∧ byteAt b 0 = 0 ↔ b.head? = some 0 := by
  cases b with
  | nil => simp
  | cons x b =>
    simp only [length_cons, Nat.succ_pos, true_and, byteAt, getD_cons_zero, head?_cons, some.injEq]
    exact UInt8.toNat_inj (b := 0)

theorem readMagnitude_reads (size : ℕ) : Reads (view data) Eq (readMagnitude size)
      (if size ≤ 1701 then pmap (block size).parse toNatural else fun _ => none) := by
  have hraw : Reads (view data) Eq _ _ := readRaw_reads size
  have hstuck (reader : ByteReader) (hbad : (view data).bad (reader.readRaw size).1) :
      (view data).bad (if !(reader.readRaw size).1.valid then ((reader.readRaw size).1, 0)
        else finishNatural (reader.readRaw size) size).1 := by
    rw [show (reader.readRaw size).1.valid = false from hbad]
    exact hbad
  refine ⟨fun reader hbad => ?_, fun reader hgood => ?_⟩
  · rw [readMagnitude]
    split_ifs
    · exact hbad
    · exact bad_invalidReader _ _
    · exact hstuck _ (hraw.stuck reader hbad)
  · rw [readMagnitude, hgood.1]
    by_cases hsize : size ≤ 1701
    · rw [if_neg (not_lt.mpr hsize), if_pos hsize]
      rcases hraw.outcome hgood with ⟨hp, hbad⟩ | ⟨b, hp, hgood', hval⟩
      · simp only [Parser.pmap, hp]
        exact hstuck _ hbad
      have hlen : b.length = size := ((block size).print_parse hp).2
      have hfold : b.foldl (fun value byte => value * 256 + byte.toNat) 0 =
          bigEndian 256 (b.map UInt8.toNat) := by rw [bigEndian, foldl_map]
      simp only [Parser.pmap, hp, hgood'.1, Bool.not_true, Bool.false_eq_true, if_false,
        finishNatural, hval, natDigitCount_eq, hfold, toNatural]
      have hzero : 0 < size ∧ byteAt b 0 = 0 ↔ b.head? = some 0 := by
        rw [← hlen]
        exact byteAt_zero_iff
      by_cases hhead : b.head? = some 0
      · rw [if_pos (hzero.mpr hhead), if_pos hhead]
        exact bad_invalidReader _ _
      rw [if_neg fun h => hhead (hzero.mp h), if_neg hhead]
      split_ifs with hlong hfits
      · omega
      · exact bad_invalidReader _ _
      · exact ⟨hgood', rfl, rfl⟩
      · omega
    · rw [if_pos (not_le.mp hsize), if_neg hsize]
      exact bad_invalidReader _ _

theorem readNatural_reads : Reads (view data) Eq readNatural natural.parse :=
  (bind_eq readU16_reads readMagnitude_reads).congr (pmap_counted u16 1701 toNatural)

theorem readI16_reads : Reads (view data) (fun value enc => value =
      (decide (32768 ≤ enc), i16Magnitude enc)) readI16 u16.parse := by
  have hsigned : readI16 = fun reader => ((readU16 reader).1,
      (decide (32768 ≤ (readU16 reader).2), i16Magnitude (readU16 reader).2)) := by
    funext reader
    simp only [readI16, subtractNatural_eq, i16Magnitude]
    split_ifs with h
    · simp [h]
    · simp [h]
  have hid : u16.parse = pmap u16.parse fun enc => some (id enc) := by
    funext s
    cases h : u16.parse s <;> simp [Parser.pmap, h]
  have hread : Reads (view data) Eq _ _ := readU16_reads
  have hmap := hread.map (Q := fun value enc => value = (decide (32768 ≤ enc), i16Magnitude enc))
    (f := fun enc => (decide (32768 ≤ enc), i16Magnitude enc)) (g := id)
    fun _ _ h => by rw [h]; rfl
  rw [hsigned]
  exact hmap.congr hid

/-! ## Constants -/

theorem valid_decimalLoop {raw : ByteReader} :
    ∀ {packed : Bytes} {cur : ByteReader} {digits : List ℕ}, cur.valid = false →
      (decimalLoop count raw packed cur digits).1.valid = false
  | [], _, _, h => h
  | byte :: packed, cur, digits, h => by
    simp only [decimalLoop]
    split_ifs
    all_goals exact valid_decimalLoop (by simp [h])

/-- The digit loop unpacks the digits that are still missing, or fails with them. -/
theorem decimalLoop_eq {count : ℕ} {raw : ByteReader} :
    ∀ {packed : Bytes} {missing : ℕ} {cur : ByteReader} {digits : List ℕ},
      digits.length + missing = count → packed.length = (missing + 1) / 2 →
      match unpack missing packed with
      | some rest => decimalLoop count raw packed cur digits = (cur, digits ++ rest)
      | none => (decimalLoop count raw packed cur digits).1.valid = false
  | [], missing, cur, digits, _, hlen => by
    have h0 : missing = 0 := by
      simp only [length_nil] at hlen
      omega
    subst h0
    simp [unpack, decimalLoop]
  | byte :: packed, 0, cur, digits, _, hlen => by simp at hlen
  | byte :: packed, 1, cur, digits, hcnt, hlen => by
    -- the last nibble is padding
    have hnil : packed = [] := by simpa using hlen
    subst hnil
    have hlast : ¬ (digits ++ [byte.toNat / 16]).length < count := by
      simp only [length_append, length_singleton]
      omega
    by_cases hhigh : byte.toNat / 16 ≤ 9
    · by_cases hlow : byte.toNat % 16 = 15
      · simp [unpack, decimalLoop, hhigh, hlow, not_lt.mpr hhigh]
        omega
      · rw [unpack, if_neg fun h => hlow h.2]
        simp only [decimalLoop, if_neg (not_lt.mpr hhigh), if_neg hlast, if_pos hlow]
        exact valid_invalidReader _ _
    · rw [unpack, if_neg fun h => hhigh h.1]
      simp only [decimalLoop, if_pos (not_le.mp hhigh)]
      split_ifs <;> simp
  | byte :: packed, missing + 2, cur, digits, hcnt, hlen => by
    have hmore : (digits ++ [byte.toNat / 16]).length < count := by
      simp only [length_append, length_singleton]
      omega
    by_cases hhigh : byte.toNat / 16 ≤ 9
    · by_cases hlow : byte.toNat % 16 ≤ 9
      · have hstep : decimalLoop count raw (byte :: packed) cur digits =
            decimalLoop count raw packed cur
              (digits ++ [byte.toNat / 16] ++ [byte.toNat % 16]) := by
          simp only [decimalLoop, if_neg (not_lt.mpr hhigh), if_pos hmore, if_neg (not_lt.mpr hlow)]
        have hlen' : packed.length = (missing + 1) / 2 := by
          simp only [length_cons] at hlen
          omega
        have ih := @decimalLoop_eq count raw packed missing cur
          (digits ++ [byte.toNat / 16] ++ [byte.toNat % 16]) (by simp; omega) hlen'
        rw [unpack, if_pos ⟨hhigh, hlow⟩, hstep]
        cases hu : unpack missing packed with
        | none =>
          rw [hu] at ih
          exact ih
        | some rest =>
          rw [hu] at ih
          simpa using ih
      · rw [unpack, if_neg fun h => hlow h.2]
        simp only [decimalLoop, if_neg (not_lt.mpr hhigh), if_pos hmore, if_pos (not_le.mp hlow)]
        exact valid_decimalLoop (valid_invalidReader _ _)
    · rw [unpack, if_neg fun h => hhigh h.1]
      simp only [decimalLoop, if_pos (not_le.mp hhigh)]
      split_ifs
      all_goals exact valid_decimalLoop (by simp)

theorem checkDecimal_eq (sign expMag count : ℕ) (reader : ByteReader) :
    if sign ≤ 1 ∧ expMag ≤ 4096 ∧ count ≠ 0 ∧ count ≤ 4096 then
      checkDecimal sign expMag count reader = reader
    else (checkDecimal sign expMag count reader).valid = false := by
  simp only [checkDecimal]
  split_ifs
  all_goals first | rfl | (simp) | omega

theorem bad_readCoefficient_of_readRaw {sign : ℕ} {expo : Bool × ℕ} {count : ℕ}
    {reader : ByteReader} (h : (view data).bad
      ((checkDecimal sign expo.2 count reader).readRaw ((count + 1) / 2)).1) :
    (view data).bad (readCoefficient sign expo count reader).1 := by
  have hvalid : ((checkDecimal sign expo.2 count reader).readRaw ((count + 1) / 2)).1.valid =
    false := h
  show (readCoefficient sign expo count reader).1.valid = false
  simp [readCoefficient, hvalid]

theorem bad_readCoefficient {expo : Bool × ℕ}
    (h : (view data).bad (checkDecimal sign expo.2 count reader)) :
    (view data).bad (readCoefficient sign expo count reader).1 :=
  bad_readCoefficient_of_readRaw ((readRaw_reads ((count + 1) / 2)).stuck _ h)

theorem bad_checkDecimal {expMag : ℕ} (h : (view data).bad reader) :
    (view data).bad (checkDecimal sign expMag count reader) :=
  bad_ite (bad_ite (bad_ite h))

theorem readCoefficient_reads (sign enc count : ℕ) : Reads (view data) Eq
      (readCoefficient sign (decide (32768 ≤ enc), i16Magnitude enc) count)
      (pmap (block ((count + 1) / 2)).parse
        fun packed => toDecimal (sign, enc, count, packed)) := by
  have hraw : Reads (view data) Eq _ _ := readRaw_reads ((count + 1) / 2)
  refine ⟨fun reader hbad => bad_readCoefficient (bad_checkDecimal hbad), fun reader hgood => ?_⟩
  · have hsame := checkDecimal_eq sign (i16Magnitude enc) count reader
    by_cases hflds : sign ≤ 1 ∧ i16Magnitude enc ≤ 4096 ∧ count ≠ 0 ∧ count ≤ 4096
    · rw [if_pos hflds] at hsame
      rcases hraw.outcome hgood with ⟨hp, hbad⟩ | ⟨packed, hp, hgood', hval⟩
      · simp only [Parser.pmap, hp]
        refine bad_readCoefficient_of_readRaw ?_
        rw [hsame]
        exact hbad
      have hlen : packed.length = (count + 1) / 2 := (block _).print_parse hp |>.2
      have hloop := @decimalLoop_eq count (reader.readRaw ((count + 1) / 2)).1 packed count
        reader [] (by simp) hlen
      simp only [Parser.pmap, hp, toDecimal, if_pos hflds, readCoefficient, hsame,
        hgood'.1, if_true, hval]
      rcases hu : unpack count packed with _ | digits
      · rw [hu] at hloop
        simp only [Option.map_none, Bool.and_true]
        show ByteReader.valid (if _ then _ else _) = false
        split_ifs
        · exact valid_invalidReader _ _
        · exact hloop
      rw [hu] at hloop
      simp only [hloop, nil_append]
      by_cases hzero : 1 < digits.length ∧ digits.head? = some 0
      · simp only [if_pos hzero, map_none, Bool.and_true]
        exact valid_invalidReader _ _
      · simp only [if_neg hzero, map_some]
        refine ⟨⟨?_, hgood.2.1, hgood'.2.2⟩, rfl, rfl⟩
        simp [hgood.1]
    · rw [if_neg hflds] at hsame
      have hnone : ∀ packed, toDecimal (sign, enc, count, packed) = none := by
        intro packed
        rw [toDecimal, if_neg hflds]
      have hprs : pmap (block ((count + 1) / 2)).parse
          (fun packed => toDecimal (sign, enc, count, packed))
          ((view data).rest reader) = none := by
        rw [Parser.pmap]
        split
        · rfl
        · rw [hnone]
          rfl
      rw [hprs]
      exact bad_readCoefficient hsame

theorem readDecimal_reads : Reads (view data) Eq readDecimal decimal.parse := by
  have hprs : decimal.parse = bind u8.parse fun sign =>
      bind u16.parse fun enc => bind u16.parse fun count =>
        pmap (block ((count + 1) / 2)).parse
          fun packed => toDecimal (sign, enc, count, packed) := by
    refine (pmap_pair _ _ _).trans (congrArg _ (funext fun sign => ?_))
    refine (pmap_pair _ _ _).trans (congrArg _ (funext fun enc => ?_))
    exact pmap_pair _ _ _
  rw [hprs]
  refine bind_eq (g := fun sign reader =>
    readCoefficient sign reader.readI16.2 reader.readI16.1.readU16.2 reader.readI16.1.readU16.1)
    readU8_reads fun sign => ?_
  refine bind (g := fun expo reader =>
    readCoefficient sign expo reader.readU16.2 reader.readU16.1) readI16_reads
    (fun expo enc h => ?_) fun expo reader hbad =>
      bad_readCoefficient (bad_checkDecimal (readU16_reads.stuck reader hbad))
  subst h
  exact bind_eq readU16_reads fun count => readCoefficient_reads sign enc count

theorem reads_checked {α β : Type} {read : ByteReader → ByteReader × α} {p : Parser UInt8 α}
    (h : Reads (view data) Eq read p) {c : α → Prop} [DecidablePred c] {default : β} {f : α → β}
    {g : α → Option β} (hbad : ∀ a, c a → g a = none) (hgood : ∀ a, ¬ c a → g a = some (f a)) :
    Reads (view data) Eq (fun reader => if c (read reader).2 then
        ((read reader).1.invalidReader msg, default)
      else ((read reader).1, f (read reader).2)) (pmap p g) := by
  have hcheck := h.check (Q := Eq) (k := fun a => if c a then default else f a)
    (m := fun a reader => if c a then reader.invalidReader msg else reader) (f := g)
    (fun _ _ hs => bad_ite hs) (fun a b hab hnone reader => by
      subst hab
      have hb : c a := by
        by_contra hb
        rw [hgood a hb] at hnone
        cases hnone
      rw [if_pos hb]
      exact bad_invalidReader _ _)
    (fun a b d hab hsome => by
      subst hab
      have hb : ¬ c a := fun hb => by
        rw [hbad a hb] at hsome
        cases hsome
      rw [hgood a hb] at hsome
      cases hsome
      exact ⟨fun _ => if_neg hb, if_neg hb⟩)
  have hsame : (fun reader => if c (read reader).2 then
        ((read reader).1.invalidReader msg, default)
      else ((read reader).1, f (read reader).2)) = fun reader =>
      (if c (read reader).2 then (read reader).1.invalidReader msg else (read reader).1,
        if c (read reader).2 then default else f (read reader).2) := by
    funext reader
    split_ifs <;> rfl
  rw [hsame]
  exact hcheck

theorem readInteger_reads : Reads (view data) Eq readInteger (constantBody 1).parse := by
  have hprs : (constantBody 1).parse = bind u8.parse fun sign =>
      pmap natural.parse fun mag => toInteger (sign, mag) := pmap_pair _ _ _
  rw [hprs]
  refine bind_eq (g := fun sign reader =>
    (checkInteger sign reader.readNatural.2 reader.readNatural.1,
      intConstant (sign == 1) reader.readNatural.2)) readU8_reads fun sign => ?_
  refine readNatural_reads.check (m := checkInteger sign)
    (k := fun mag => intConstant (sign == 1) mag)
    (fun mag reader hbad => bad_ite (bad_ite hbad))
    (fun a b hab hnone reader => ?_) fun a b value hab hsome => ?_
  · subst hab
    have hbad : 1 < sign ∨ (sign = 1 ∧ a = 0) := by
      by_contra hgood
      have hfits : (sign, a).1 ≤ 1 ∧ ¬ ((sign, a).1 = 1 ∧ (sign, a).2 = 0) := by omega
      rw [toInteger, if_pos hfits] at hnone
      cases hnone
    rcases hbad with hsign | hzero
    · simp only [checkInteger, if_pos hsign]
      exact bad_ite (bad_invalidReader _ _)
    · simp only [checkInteger, if_pos hzero]
      exact bad_invalidReader _ _
  · subst hab
    rw [toInteger] at hsome
    split_ifs at hsome with hfits
    cases hsome
    have hsign : ¬ 1 < sign := not_lt.mpr hfits.1
    refine ⟨fun reader => ?_, rfl⟩
    simp only [checkInteger, if_neg hsign]
    exact if_neg hfits.2

theorem readBool_reads : Reads (view data) Eq readBool (constantBody 4).parse := by
  refine reads_checked (c := fun flag => 1 < flag) readU8_reads
    (f := fun flag => boolConstant (flag == 1)) (fun flag h => ?_) fun flag h => ?_
  · rw [Format.toBool, if_neg (not_le.mpr h)]
  · rw [Format.toBool, if_pos (not_lt.mp h)]
    rfl

theorem readConstantBody_reads : ∀ tag : ℕ,
    Reads (view data) Eq (readConstantBody tag) (constantBody tag).parse
  | 0 => readNatural_reads.map fun _ _ h => congrArg _ h
  | 1 => readInteger_reads
  | 2 => readDecimal_reads
  | 3 => readText_reads.map fun _ _ h => congrArg _ h
  | 4 => readBool_reads
  | 5 => pure rfl
  | _ + 6 => fail fun _ => bad_invalidReader _ _

theorem readConstant_reads : Reads (view data) Eq readConstant constant.parse :=
  bind_eq readU8_reads readConstantBody_reads

/-! ## Instructions -/

theorem readItems_reads {α : Type} {read : ByteReader → ByteReader × α} {p : Parser UInt8 α}
    (h : Reads (view data) Eq read p) (count : ℕ) :
    Reads (view data) Eq (readItems read count) (many p count) := by
  have hproc : ∀ reader, (view data).good reader → reader.valid = true := fun _ hgood => hgood.1
  exact many_eq hproc h (fun _ => rfl) (fun _ _ => rfl) count

theorem readTexts_reads : Reads (view data) Eq readTexts (u16.list text).parse := by
  rw [list_parse]
  refine bind (g := fun count reader => if 65535 < count then
      (reader.invalidReader (ascii "interpolation exceeds item limit"), [])
    else readItems readText count reader) readU16_reads.with_ok (fun a count h => ?_)
    fun count reader hbad => ?_
  · -- a count of two bytes never reaches the limit
    obtain ⟨rfl, hok⟩ := h
    have hle : ¬ 65535 < a := by
      have := u16_ok_iff.mp hok
      omega
    simp only [if_neg hle]
    exact readItems_reads readText_reads a
  · split_ifs
    · exact bad_invalidReader _ _
    · exact (readItems_reads readText_reads count).stuck reader hbad

variable {α : Type}

theorem operandOf_reads {read : ByteReader → ByteReader × α} {p : Parser UInt8 α}
    (h : Reads (view data) Eq read p) (mk : α → Instruction) :
    Reads (view data) Eq (operandOf read mk) (pmap p fun a => some (mk a)) :=
  h.map fun _ _ hab => congrArg mk hab

theorem nameThen_reads {read : ByteReader → ByteReader × α} {c : Codec UInt8 α}
    (h : Reads (view data) Eq read c.parse) (mk : Str → α → Instruction) :
    Reads (view data) Eq (nameThen read mk)
      (pmap (name.pair fun _ => c).parse fun x => some (mk x.1 x.2)) := by
  rw [pmap_pair]
  exact bind_eq (g := fun name => operandOf read (mk name)) readName_reads
    fun name => operandOf_reads h (mk name)

theorem nameTwice_reads {read : ByteReader → ByteReader × α} {c : Codec UInt8 α}
    (h : Reads (view data) Eq read c.parse) (mk : Str → Str → α → Instruction) :
    Reads (view data) Eq (fun reader => nameThen read (mk reader.readName.2) reader.readName.1)
      (pmap (name.pair fun _ => name.pair fun _ => c).parse
        fun x => some (mk x.1 x.2.1 x.2.2)) := by
  rw [pmap_pair]
  exact bind_eq (g := fun name => nameThen read (mk name)) readName_reads
    fun name => nameThen_reads h (mk name)

theorem readRecord_reads (mk : Str → List Str → Instruction) : Reads (view data) Eq (fun reader =>
        operandOf (readNames · reader.readName.1.readU16.2) (mk reader.readName.2)
          reader.readName.1.readU16.1)
      (pmap (name.pair fun _ => u16.list name).parse fun x => some (mk x.1 x.2)) := by
  rw [pmap_pair]
  refine bind_eq (g := fun name reader =>
    operandOf (readNames · reader.readU16.2) (mk name) reader.readU16.1) readName_reads
    fun name => ?_
  rw [pmap_list]
  exact bind_eq (g := fun count => operandOf (readNames · count) (mk name)) readU16_reads
    fun count => operandOf_reads (readItems_reads readName_reads count) (mk name)

theorem readOperator_reads (limit : ℕ) (msg : Str) (default : Instruction) (mk : ℕ → Instruction) :
    Reads (view data) Eq (readOperator limit msg default mk)
      (pmap u8.parse fun code => if code ≤ limit then some (mk code) else none) := by
  refine reads_checked (c := fun code => limit < code) readU8_reads (fun code h => ?_)
    fun code h => ?_
  · exact if_neg (not_le.mpr h)
  · exact if_pos (not_lt.mp h)

theorem readOperand_reads : ∀ opcode : ℕ,
    Reads (view data) Eq (readOperand opcode) (operand opcode).parse
  | 0 => operandOf_reads readConstant_reads .constInstruction
  | 1 => operandOf_reads readName_reads .loadInstruction
  | 2 => operandOf_reads readName_reads .storeInstruction
  | 3 | 6 | 8 | 16 | 20 => pure rfl
  | 4 => readOperator_reads 1 _ _ fun code => .unaryInstruction (unaryOperator code)
  | 5 => readOperator_reads 12 _ _ fun code => .binaryInstruction (binaryOperator code)
  | 7 => operandOf_reads readU16_reads .makeArrayInstruction
  | 9 => operandOf_reads readTexts_reads .interpolateInstruction
  | 10 => operandOf_reads readName_reads .iterInitInstruction
  | 11 => nameTwice_reads readU32_reads .iterNextInstruction
  | 12 => readRecord_reads .makeRecordInstruction
  | 13 => operandOf_reads readName_reads .fieldGetInstruction
  | 14 => nameTwice_reads readU16_reads .makeVariantInstruction
  | 15 => nameThen_reads readU32_reads .matchVariantInstruction
  | 17 => nameThen_reads readU8_reads .callInstruction
  | 18 => operandOf_reads readU32_reads .jumpFalseInstruction
  | 19 => operandOf_reads readU32_reads .jumpInstruction
  | 21 => operandOf_reads readU8_reads .callValueInstruction
  | 22 => nameThen_reads readU8_reads .awaitCallInstruction
  | 23 => operandOf_reads readU8_reads .awaitValueInstruction
  | _ + 24 => fail fun _ => bad_invalidReader _ _

theorem readInstruction_reads : Reads (view data) Eq readInstruction instruction.parse :=
  bind_eq readU8_reads readOperand_reads

/-! ## Functions -/

theorem readBody_reads (name : Str) (flags : ℕ) (params : List Str) (count : ℕ) :
    Reads (view data) Eq (readBody name flags params count) (pmap (many instruction.parse count)
        fun instrs => toFunction (name, flags, params, instrs)) := by
  have hitems : Reads (view data) Eq _ _ := readItems_reads readInstruction_reads count
  refine ⟨fun reader hbad => ?_, fun reader hgood => ?_⟩
  · exact hitems.stuck _ (bad_ite (bad_ite hbad))
  by_cases hflds : flags ≤ 2 ∧ count ≤ 1000000
  · simp only [readBody, if_neg (not_lt.mpr hflds.1), if_neg (not_lt.mpr hflds.2), readInstructions]
    rcases hitems.outcome hgood with ⟨hp, hbad⟩ | ⟨instrs, hp, hgood', hval⟩
    · simp only [Parser.pmap, hp]
      exact hbad
    have hfits : flags ≤ 2 ∧ instrs.length ≤ 1000000 := by
      rw [Parser.many_length hp]
      exact hflds
    simp only [Parser.pmap, hp, toFunction, if_pos hfits, map_some]
    exact ⟨hgood', rfl, by rw [hval]; rfl⟩
  · -- the reader is marked before the instrs are read
    have hnone : pmap (many instruction.parse count)
        (fun instrs => toFunction (name, flags, params, instrs))
        ((view data).rest reader) = none := by
      cases hp : many instruction.parse count ((view data).rest reader) with
      | none => simp only [Parser.pmap, hp]
      | some out =>
        have hlen := many_length hp
        simp [Parser.pmap, hp, toFunction, hlen, if_neg hflds]
    rw [hnone]
    refine hitems.stuck _ ?_
    by_cases hflg : flags ≤ 2
    · rw [if_pos (not_le.mp fun hcnt => hflds ⟨hflg, hcnt⟩)]
      exact bad_invalidReader _ _
    · rw [if_pos (not_le.mp hflg)]
      exact bad_ite (bad_invalidReader _ _)

theorem readParameters_reads :
    Reads (view data) Eq (fun reader => reader.readU8.1.readNames reader.readU8.2)
      (u8.list name).parse := by
  rw [list_parse]
  exact bind_eq (g := fun count reader => readNames reader count) readU8_reads
    fun count => readItems_reads readName_reads count

theorem readFunction_reads : Reads (view data) Eq readFunction functionCode.parse := by
  have hprs : functionCode.parse = bind name.parse fun name => bind u8.parse fun flags =>
        bind (Format.u8.list Format.name).parse fun parameters => bind u32.parse fun count =>
            pmap (many instruction.parse count) fun instrs =>
              toFunction (name, flags, parameters, instrs) := by
    refine (pmap_pair _ _ _).trans (congrArg _ (funext fun name => ?_))
    refine (pmap_pair _ _ _).trans (congrArg _ (funext fun flags => ?_))
    refine (pmap_pair _ _ _).trans (congrArg _ (funext fun parameters => ?_))
    exact pmap_list _ _ _
  rw [hprs]
  refine bind_eq (g := fun name reader =>
    let flags := reader.readU8
    let parameterCount := flags.1.readU8
    let parameters := parameterCount.1.readNames parameterCount.2
    let instructionCount := parameters.1.readU32
    readBody name flags.2 parameters.2 instructionCount.2 instructionCount.1)
    readName_reads fun name => ?_
  refine bind_eq (g := fun flags reader =>
    let parameterCount := reader.readU8
    let parameters := parameterCount.1.readNames parameterCount.2
    let instructionCount := parameters.1.readU32
    readBody name flags parameters.2 instructionCount.2 instructionCount.1)
    readU8_reads fun flags => ?_
  refine bind_eq (g := fun parameters reader =>
    readBody name flags parameters reader.readU32.2 reader.readU32.1)
    readParameters_reads fun parameters => ?_
  exact bind_eq readU32_reads fun count => readBody_reads name flags parameters count

/-! ## Artifacts -/

/-- The names are strictly ascending, after a name that has been read. -/
def Ascending : (cursor : ℕ) → (previousName : Str) → List FunctionCode → Prop
  | _, _, [] => True
  | cursor, previousName, f :: functions =>
    (0 < cursor → previousName < f.name) ∧ Ascending (cursor + 1) f.name functions

instance : ∀ (cursor : ℕ) (previousName : Str) (functions : List FunctionCode),
    Decidable (Ascending cursor previousName functions)
  | _, _, [] => isTrue trivial
  | cursor, _, f :: functions =>
    have := instDecidableAscending (cursor + 1) f.name functions
    inferInstanceAs (Decidable (_ ∧ _))

theorem bad_checkOrder {cur : ℕ} {name prev : Str} (h : (view data).bad reader) :
    (view data).bad (checkOrder cur name prev reader) := by
  rw [checkOrder]
  split_ifs
  · exact bad_invalidReader _ _
  · exact bad_invalidReader _ _
  · exact h

/-- The order check passes exactly on a name after the previous one. -/
theorem checkOrder_eq (data : Bytes) (cur : ℕ) (name prev : Str) (reader : ByteReader) :
    if 0 < cur → prev < name then checkOrder cur name prev reader = reader
    else (view data).bad (checkOrder cur name prev reader) := by
  rw [checkOrder]
  split_ifs with hok hdup hless hdup hless
  · exact absurd (hok hdup.1) (by rw [hdup.2]; exact lt_irrefl _)
  · exact absurd (lt_trans (hok hless.1) hless.2) (lt_irrefl _)
  · rfl
  · exact bad_invalidReader _ _
  · exact bad_invalidReader _ _
  · exact absurd (fun hc => lt_of_not_lt (fun h => hless ⟨hc, h⟩) fun h => hdup ⟨hc, h⟩) hok

theorem bad_functionLoop : ∀ {remaining : ℕ} {cur : ByteReader}
    {functions : List FunctionCode} {prev : Str} {cursor total : ℕ},
    (view data).bad cur →
    (view data).bad (functionLoop remaining cur functions prev cursor total).1
  | 0, _, _, _, _, _, h => h
  | remaining + 1, cur, functions, prev, cursor, total, h => by
    rw [functionLoop]
    split_ifs
    · exact bad_functionLoop (bad_ite (bad_checkOrder (readFunction_reads.stuck cur h)))
    · exact h

theorem totalInstructions_cons (f : FunctionCode) (functions : List FunctionCode) :
    totalInstructions (f :: functions) = f.instructions.length + totalInstructions functions := by
  rw [totalInstructions, totalInstructions, map_cons, sum_cons]

/-- One more function passes the checks of the loop when it passes its own and the rest pass
theirs. -/
theorem loopChecks_cons {cur total : ℕ} {prev : Str} {f : FunctionCode} (read : List FunctionCode) :
    (Ascending cur prev (f :: read) ∧ total + totalInstructions (f :: read) ≤ 4000000) ↔
      ((0 < cur → prev < f.name) ∧ total + f.instructions.length ≤ 4000000) ∧
        Ascending (cur + 1) f.name read ∧
          total + f.instructions.length + totalInstructions read ≤ 4000000 := by
  rw [Ascending, totalInstructions_cons]
  constructor
  · rintro ⟨⟨hfirst, hrest⟩, htotal⟩
    exact ⟨⟨hfirst, by omega⟩, hrest, by omega⟩
  · rintro ⟨⟨hfirst, _⟩, hrest, htotal⟩
    exact ⟨⟨hfirst, hrest⟩, by omega⟩

/-- The function loop reads the functions and checks their order and their instructions. -/
theorem functionLoop_reads : ∀ (remaining : ℕ) (functions : List FunctionCode) (prev : Str)
    (cur total : ℕ), total ≤ 4000000 →
    Reads (view data) Eq (fun current => functionLoop remaining current functions prev cur total)
      (Parser.pmap (Parser.many functionCode.parse remaining) fun read =>
        if Ascending cur prev read ∧ total + totalInstructions read ≤ 4000000 then
          some (functions ++ read)
        else none)
  | 0, functions, prev, cur, total, htotal => by
    refine ⟨fun current hbad => hbad, fun current hgood => ?_⟩
    have hfits : Ascending cur prev [] ∧ total + totalInstructions [] ≤ 4000000 :=
      ⟨trivial, htotal⟩
    simp only [Parser.many, Parser.pmap, Parser.pure, if_pos hfits, map_some]
    exact ⟨hgood, rfl, by simp [functionLoop]⟩
  | remaining + 1, functions, prev, cur, total, htotal => by
    refine ⟨fun current hbad => bad_functionLoop hbad, fun current hgood => ?_⟩
    simp only [functionLoop, if_pos hgood.1]
    rcases readFunction_reads.outcome hgood with ⟨hp, hbad⟩ | ⟨f, hp, hgood', hval⟩
    · simp only [Parser.many, Parser.pmap, Parser.bind_none hp]
      exact bad_functionLoop (bad_ite (bad_checkOrder hbad))
    have hmany : Parser.many functionCode.parse (remaining + 1) ((view data).rest current) =
        Parser.bind (Parser.many functionCode.parse remaining)
          (fun read => Parser.pure (f :: read)) ((view data).rest current.readFunction.1) :=
      Parser.bind_some hp
    have horder := checkOrder_eq data cur f.name prev current.readFunction.1
    rw [hval]
    by_cases hpass : (0 < cur → prev < f.name) ∧ total + f.instructions.length ≤ 4000000
    · -- both checks leave the reader alone, and the rest of the loop reads the rest
      rw [if_pos hpass.1] at horder
      have hloop := (functionLoop_reads remaining (functions ++ [f]) f.name (cur + 1)
        (total + f.instructions.length) hpass.2).agrees _ hgood'
      rw [horder, checkTotal, if_neg (not_lt.mpr hpass.2)]
      simp only [Parser.pmap, hmany, Parser.bind]
      simp only [Parser.pmap] at hloop
      cases hps : Parser.many functionCode.parse remaining
          ((view data).rest current.readFunction.1) with
      | none =>
        rw [hps] at hloop
        exact hloop
      | some out =>
        rw [hps] at hloop
        have hchecks := (loopChecks_cons out.1).trans (and_iff_right hpass)
        simp only [Parser.pure, append_assoc, singleton_append] at hloop ⊢
        by_cases hrest : Ascending (cur + 1) f.name out.1 ∧
            total + f.instructions.length + totalInstructions out.1 ≤ 4000000
        · rw [if_pos (hchecks.mpr hrest)]
          rw [if_pos hrest] at hloop
          exact hloop
        · rw [if_neg (mt hchecks.mp hrest)]
          rw [if_neg hrest] at hloop
          exact hloop
    · have hnone : Parser.pmap (Parser.many functionCode.parse (remaining + 1))
          (fun read => if Ascending cur prev read ∧
            total + totalInstructions read ≤ 4000000 then some (functions ++ read)
            else none) ((view data).rest current) = none := by
        simp only [Parser.pmap, hmany, Parser.bind]
        cases hps : Parser.many functionCode.parse remaining
          ((view data).rest current.readFunction.1) with
        | none => rfl
        | some out =>
          simp [Parser.pure, loopChecks_cons, hpass]
      rw [hnone]
      refine bad_functionLoop ?_
      by_cases hfirst : 0 < cur → prev < f.name
      · rw [checkTotal, if_pos (not_le.mp fun htot => hpass ⟨hfirst, htot⟩)]
        exact bad_invalidReader _ _
      · rw [if_neg hfirst] at horder
        exact bad_ite horder

/-- No name is read twice, and later names are greater. -/
def SortedNames (functions : List FunctionCode) : Prop :=
  functions.Pairwise fun f g => f.name < g.name

theorem ascending_iff_isChain (cur : ℕ) (f : FunctionCode) (functions : List FunctionCode) :
    Ascending (cur + 1) f.name functions ↔ (f :: functions).IsChain fun f g => f.name < g.name := by
  induction functions generalizing cur f with
  | nil => simp [Ascending]
  | cons g functions ih =>
    rw [Ascending, ih, isChain_cons_cons]
    exact and_congr_left fun _ => ⟨fun h => h (Nat.succ_pos _), fun h _ => h⟩

/-- The order that the loop checks is the order of the whole table. -/
theorem ascending_zero_iff (functions : List FunctionCode) :
    Ascending 0 empty functions ↔ SortedNames functions := by
  have : IsTrans FunctionCode fun f g => f.name < g.name := ⟨fun _ _ _ => lt_trans⟩
  cases functions with
  | nil => simp [Ascending, SortedNames]
  | cons f functions =>
    rw [Ascending, ascending_iff_isChain, SortedNames, ← isChain_iff_pairwise]
    exact and_iff_right fun h => absurd h (lt_irrefl 0)

end ByteReader

open ByteReader

theorem hasBytecodeMagic_iff (data : Bytes) :
    hasBytecodeMagic data = true ↔ 9 ≤ data.length ∧ data.take 9 = magic := by
  rw [hasBytecodeMagic, Bool.and_eq_true, decide_eq_true_eq, beq_iff_eq]
  rfl

/-- What the reading phase parses after the version. -/
def tableParser : Parser UInt8 (List FunctionCode) :=
  bind u16.parse fun count =>
    if count ≤ 4096 then
      pmap (many functionCode.parse count) fun functions =>
        if Ascending 0 empty functions ∧ 0 + totalInstructions functions ≤ 4000000 then
          some ([] ++ functions)
        else none
    else fun _ => none

theorem tableParser_reads (data : Bytes) :
    Reads (view data) Eq (fun reader => functionLoop reader.readU16.2
      (if 4096 < reader.readU16.2 then
        reader.readU16.1.invalidReader (ascii "function count exceeds limit")
      else reader.readU16.1) [] empty 0 0) tableParser := by
  refine bind_eq (g := fun count reader => functionLoop count
    (if 4096 < count then reader.invalidReader (ascii "function count exceeds limit")
      else reader) [] empty 0 0) readU16_reads fun count => ?_
  by_cases hcnt : count ≤ 4096
  · simp only [if_pos hcnt, if_neg (not_lt.mpr hcnt)]
    exact functionLoop_reads count [] empty 0 0 (by decide)
  · simp only [if_neg hcnt, if_pos (not_le.mp hcnt)]
    exact fail fun reader => bad_functionLoop (bad_invalidReader _ _)

theorem readFunctions_eq_ok_iff {data : Bytes} (h : (view data).good reader) :
    readFunctions data reader = .ok functions ↔
      tableParser ((view data).rest reader) = some (functions, []) := by
  have hagree := (tableParser_reads data).agrees reader h
  simp only [readFunctions]
  generalize functionLoop reader.readU16.2 _ [] empty 0 0 = read at hagree ⊢
  rcases hp : tableParser ((view data).rest reader) with _ | ⟨parsed, rest⟩
  · rw [hp] at hagree
    have hvalid : read.1.valid = false := hagree
    simp [hvalid]
  rw [hp] at hagree
  obtain ⟨⟨hvalid, hdata, hoffset⟩, hrest, hval⟩ := hagree
  have hend : read.1.offset = data.length ↔ rest = [] := by
    rw [← hrest]
    show _ ↔ data.drop read.1.offset = []
    rw [drop_eq_nil_iff]
    omega
  by_cases hoff : read.1.offset = data.length
  · simp [hvalid, hoff, hend.mp hoff, hval]
  · have hne : rest ≠ [] := fun h => hoff (hend.mpr h)
    simp [hvalid, hoff, hne]

/-- The format's parser accepts the whole artifact and the names are ascending exactly when the
header is right and the reading phase parses what follows it. -/
theorem functionTable_sorted_iff {data : Bytes} :
    functionTable.parse data = some (functions, []) ∧ SortedNames functions ↔
      (9 ≤ data.length ∧ data.take 9 = magic) ∧ ∃ rest, u16.parse (data.drop 9) = some (9, rest) ∧
        tableParser rest = some (functions, []) := by
  have hprs : functionTable.parse = bind (block 9).parse fun start =>
      bind u16.parse fun version => bind u16.parse fun count =>
        pmap (many functionCode.parse count) fun functions =>
          toTable (start, version, functions) := by
    refine (pmap_pair _ _ _).trans (congrArg _ (funext fun start => ?_))
    refine (pmap_pair _ _ _).trans (congrArg _ (funext fun version => ?_))
    exact pmap_list _ _ _
  rw [hprs]
  constructor
  · rintro ⟨htable, hsort⟩
    obtain ⟨start, rest₁, hstart, htable₁⟩ := bind_eq_some.mp htable
    obtain ⟨version, rest₂, hvers, htable₂⟩ := bind_eq_some.mp htable₁
    obtain ⟨count, rest₃, hcnt, htable₃⟩ := bind_eq_some.mp htable₂
    obtain ⟨read, hread, hfns⟩ := pmap_eq_some.mp htable₃
    have hlen := many_length hread
    simp only [block] at hstart
    split_ifs at hstart with h9
    cases hstart
    rw [toTable] at hfns
    split_ifs at hfns with hflds
    cases hfns
    obtain ⟨hmagic, rfl, hle, htotal⟩ := hflds
    refine ⟨⟨h9, hmagic⟩, rest₂, hvers, bind_eq_some.mpr ⟨count, rest₃, hcnt, ?_⟩⟩
    rw [if_pos (hlen ▸ hle)]
    refine pmap_eq_some.mpr ⟨_, hread, ?_⟩
    rw [if_pos ⟨(ascending_zero_iff _).mpr hsort, by omega⟩, nil_append]
  · rintro ⟨⟨h9, hmagic⟩, rest₂, hvers, htable⟩
    obtain ⟨count, rest₃, hcnt, htable⟩ := bind_eq_some.mp htable
    split_ifs at htable with hle
    obtain ⟨read, hread, htable⟩ := pmap_eq_some.mp htable
    have hlen := many_length hread
    split_ifs at htable with hflds
    cases htable
    refine ⟨bind_eq_some.mpr ⟨data.take 9, data.drop 9, if_pos h9, ?_⟩,
      (ascending_zero_iff _).mp hflds.1⟩
    refine bind_eq_some.mpr ⟨9, rest₂, hvers, ?_⟩
    refine bind_eq_some.mpr ⟨count, rest₃, hcnt, pmap_eq_some.mpr ⟨_, hread, ?_⟩⟩
    have hfits : data.take 9 = magic ∧ 9 = 9 ∧ read.length ≤ 4096 ∧
        totalInstructions read ≤ 4000000 := ⟨hmagic, rfl, by omega, by omega⟩
    rw [toTable, if_pos hfits, nil_append]

/-- The reading phase accepts an artifact exactly when it is within the size limit, the format's
parser accepts all of it and the function names are strictly ascending. -/
theorem readProgram_eq_ok_iff {data : Bytes} :
    readProgram data = .ok functions ↔ data.length ≤ 16777216 ∧
      functionTable.parse data = some (functions, []) ∧ SortedNames functions := by
  rw [functionTable_sorted_iff, ← hasBytecodeMagic_iff, readProgram]
  by_cases hsize : data.length ≤ 16777216
  · rw [if_neg (not_lt.mpr hsize), and_iff_right hsize]
    by_cases hmagic : hasBytecodeMagic data = true
    · have h9 := ((hasBytecodeMagic_iff data).mp hmagic).1
      have hgood : (view data).good ⟨data, 9, true, empty⟩ := ⟨rfl, rfl, h9⟩
      rw [hmagic]
      rcases readU16_reads.outcome hgood with ⟨hp, hbad⟩ | ⟨version, hp, hgood', hval⟩
      · have hp : u16.parse (data.drop 9) = none := hp
        have hvalid : (readU16 ⟨data, 9, true, empty⟩).1.valid = false := hbad
        simp [hvalid, hp]
      have hp : u16.parse (data.drop 9) = _ := hp
      simp only [hgood'.1, Bool.not_true, Bool.false_eq_true, if_false, hval, hp]
      by_cases hvers : version = 9
      · subst hvers
        simp only [ne_eq, not_true_eq_false, if_false, some.injEq, Prod.mk.injEq,
          true_and, exists_eq_left']
        rw [readFunctions_eq_ok_iff hgood']
      · simp [hvers]
    · simp [hmagic]
  · simp [hsize, not_le.mp hsize]

end Panackelty.Bytecode
