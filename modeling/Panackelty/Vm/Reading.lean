import Panackelty.Vm.BigintText
import Panackelty.Vm.Decode

/-!
# The decoder computes the format's parser

* `Decoder.view`: a reader is good while it has no error.
* `SameConstant`, `SameInstruction`, `SameFunction`: a decoded value represents a value of the
  format; names are C strings, and the items of an interpolation are compared as the reader of the
  definition chooses.
* `readConstant_reads`, `instruction_reads`, `function_reads`: each function of the decoder computes
  the parser of its row of the format.
* `decode_of_parse`, `parse_of_decode`: the decoder accepts exactly what the format's parser accepts
  completely.
-/

namespace Panackelty.Vm

open Bytecode Library Library.Digits Parser Nat Format Sticky
open Codec (block pmap_list pmap_pair)
open List hiding count
open Reads (attempt_bind attempt_bind_eq attempt_pure)

/-! ## Representation -/

/-- A name as a C string. -/
def SameName (c : CString) (n : Str) : Prop := c = CString.ofBytes n.bytes

/-- A decoded constant denotes the constant of the format. -/
def SameConstant : Constant → ConstantValue → Prop
  | .nat number, .natConstant value => number.toInt = value
  | .int number, .intConstant negative magnitude =>
    number.toInt = if negative then -(magnitude : ℤ) else magnitude
  | .decimal negative number exponent,
      .decimalPartsConstant negative' digits exponentNegative exponentMagnitude =>
    negative = negative' ∧
      number.toInt = (if negative' then -1 else 1) * (bigEndian 10 digits : ℕ) ∧
      exponent = if exponentNegative then -(exponentMagnitude : ℤ) else exponentMagnitude
  | .text text, .stringConstant value => text = value.bytes
  | .bool boolean, .boolConstant value => boolean = value
  | .void, .voidConstant => True
  | _, _ => False

/-- A decoded instruction is the instruction of the format, with interpolated text compared by
`T`. -/
def SameInstruction (T : CString → Str → Prop) : Instruction → Bytecode.Instruction → Prop
  | .const constant, .constInstruction value => SameConstant constant value
  | .load name, .loadInstruction name' | .store name, .storeInstruction name' => SameName name name'
  | .pop, .popInstruction => True
  | .unary code, .unaryInstruction operator => operator = unaryOperator code
  | .binary code, .binaryInstruction operator => operator = binaryOperator code
  | .makeRange, .makeRangeInstruction => True
  | .makeArray count, .makeArrayInstruction count' => count = count'
  | .indexGet, .indexGetInstruction => True
  | .interpolate items, .interpolateInstruction parts => List.Forall₂ T items parts
  | .iterInit name, .iterInitInstruction name' => SameName name name'
  | .iterNext name name2 target, .iterNextInstruction iterator name' stop =>
    SameName name iterator ∧ SameName name2 name' ∧ target = stop
  | .makeRecord name items, .makeRecordInstruction name' fields =>
    SameName name name' ∧ List.Forall₂ SameName items fields
  | .fieldGet name, .fieldGetInstruction name' => SameName name name'
  | .makeVariant name name2 count, .makeVariantInstruction enum variant count' =>
    SameName name enum ∧ SameName name2 variant ∧ count = count'
  | .matchVariant name target, .matchVariantInstruction variant failure =>
    SameName name variant ∧ target = failure
  | .matchFail, .matchFailInstruction => True
  | .call name arity, .callInstruction name' arity' => SameName name name' ∧ arity = arity'
  | .jumpFalse target, .jumpFalseInstruction target'
  | .jump target, .jumpInstruction target' => target = target'
  | .ret, .returnInstruction => True
  | .callValue arity, .callValueInstruction arity' => arity = arity'
  | .awaitCall name arity, .awaitCallInstruction name' arity' =>
    SameName name name' ∧ arity = arity'
  | .awaitValue arity, .awaitValueInstruction arity' => arity = arity'
  | _, _ => False

/-- A decoded function is the function of the format. -/
structure SameFunction (T : CString → Str → Prop) (f : Function) (g : FunctionCode) : Prop where
  name : SameName f.name g.name
  pure : f.pure = g.isPure
  isAsync : f.isAsync = g.isAsync
  params : List.Forall₂ SameName f.params g.parameters
  ins : List.Forall₂ (SameInstruction T) f.ins g.instructions

namespace Decoder

/-- The good readers of an artifact, the failed ones, and what is not read yet. -/
def view (data : Bytes) : ReaderState UInt8 Reader where
  good r := r.error = none ∧ r.data = data ∧ r.position ≤ data.length
  bad r := r.error.isSome = true
  rest r := data.drop r.position

variable {data : Bytes} {α β γ : Type} {Q : α → β → Prop}

theorem bad_fail (r : Reader) (msg : String) : (view data).bad (r.fail msg) := by
  rw [Reader.fail]
  split_ifs with h
  · exact h
  · rfl

theorem fail_reads (msg : String) :
    Reads (view data) (Lifted Q) (Decode.fail msg : Decode α) fun _ => none :=
  Reads.fail fun r => bad_fail r msg

theorem sticky_fail (msg : String) : Sticky (view data) (Decode.fail msg : Decode α) :=
  fun r _ => bad_fail r msg

theorem sticky_failIf (c : Prop) [Decidable c] (msg : String) :
    Sticky (view data) (Decode.failIf c msg) := by
  rw [Decode.failIf]
  split_ifs
  · exact sticky_fail msg
  · exact pure ()

variable {p : Parser UInt8 β}

/-- A check: where it fails, the parser of what follows has to fail too. -/
theorem failIf_reads {c : Prop} [Decidable c] {msg : String} {g : Decode α}
    (hfail : c → p = fun _ => none) (hgo : ¬ c → Reads (view data) (Lifted Q) g p) :
    Reads (view data) (Lifted Q) (Decode.failIf c msg >>= fun _ => g) p := by
  by_cases h : c
  · rw [hfail h]
    refine Reads.fail fun r => ?_
    rw [Decode.failIf, if_pos h]
    exact bad_fail r msg
  · rw [Decode.failIf, if_neg h]
    exact hgo h

/-! ## Numbers and text -/

theorem take_reads (n : ℕ) : Reads (view data) (Lifted Eq) (take n) (block n).parse where
  stuck r hr := by
    rw [take]
    split_ifs
    · exact bad_fail r _
    · exact hr
  agrees r hr := by
    obtain ⟨herr, hdata, hpos⟩ := hr
    have hlen : ((view data).rest r).length = data.length - r.position := length_drop
    rw [take, hdata]
    split_ifs with hshort
    · simp only [block, if_neg (show ¬ n ≤ ((view data).rest r).length by omega)]
      exact bad_fail r _
    simp only [block, if_pos (show n ≤ ((view data).rest r).length by omega)]
    refine ⟨⟨herr, rfl, ?_⟩, ?_, _, rfl, rfl⟩
    · show r.position + n ≤ data.length
      omega
    · show data.drop (r.position + n) = (data.drop r.position).drop n
      rw [drop_drop]

theorem wordOf_eq (p : Bytes) : wordOf p = bigEndian 256 (p.map UInt8.toNat) := by
  have hstep : ∀ (word : ℕ) (byte : UInt8), word <<< 8 ||| byte.toNat =
      word * 256 + byte.toNat := by
    intro word byte
    rw [← shiftLeft_add_eq_or_of_lt (show byte.toNat < 2 ^ 8 from byte.toNat_lt), shiftLeft_eq]
  rw [wordOf, bigEndian, foldl_map]
  simp only [hstep]

theorem u8_reads : Reads (view data) (Lifted Eq) u8 Format.u8.parse := by
  rw [u8_parse]
  refine (take_reads 1).attempt_map fun a b h => ?_
  rw [← h, wordOf_eq]

theorem u16_reads : Reads (view data) (Lifted Eq) u16 Format.u16.parse := by
  rw [u16_parse]
  refine (take_reads 2).attempt_map fun a b h => ?_
  rw [← h, wordOf_eq]

theorem u32_reads : Reads (view data) (Lifted Eq) u32 Format.u32.parse := by
  rw [u32_parse]
  refine (take_reads 4).attempt_map fun a b h => ?_
  rw [← h, wordOf_eq]

theorem textBuffer_reads (n : ℕ) : Reads (view data) (Lifted Eq) (textBuffer n)
      (pmap (block n).parse toStr) := by
  rw [pmap_eq_bind]
  refine attempt_bind_eq (take_reads n) fun p => ?_
  rw [toStr]
  split_ifs with h
  · exact attempt_pure rfl
  · exact fail_reads _

theorem countedText_reads (n limit : ℕ) (msg : String) : Reads (view data) (Lifted Eq)
      (Decode.failIf (limit < n) msg >>= fun _ => textBuffer n)
      (if n ≤ limit then pmap (block n).parse toStr else fun _ => none) := by
  refine failIf_reads (fun h => if_neg (not_le.mpr h)) fun h => ?_
  rw [if_pos (not_lt.mp h)]
  exact textBuffer_reads n

theorem text_true_reads : Reads (view data) (Lifted Eq) (text true) Format.name.parse :=
  (attempt_bind_eq u16_reads fun n => countedText_reads n 1024 _).congr (pmap_counted _ _ _)

theorem text_false_reads : Reads (view data) (Lifted Eq) (text false) Format.text.parse :=
  (attempt_bind_eq u32_reads fun n => countedText_reads n 1048576 _).congr (pmap_counted _ _ _)

theorem cString_reads {f : Decode Str} {p : Parser UInt8 Str}
    (h : Reads (view data) (Lifted Eq) f p) :
    Reads (view data) (Lifted SameName) (f >>= fun b => pure (CString.ofBytes b.bytes)) p := by
  rw [← pmap_some p]
  refine h.attempt_map (l := id) fun a b hab => ?_
  rw [hab]
  rfl

theorem name_reads : Reads (view data) (Lifted SameName) name Format.name.parse :=
  cString_reads text_true_reads

theorem toInt_fromBytes (p : Bytes) :
    (Big.fromBytes p).toInt = (bigEndian 256 (p.map UInt8.toNat) : ℕ) :=
  toInt_pnBigFromBytes fun d hd => by
    obtain ⟨b, _, rfl⟩ := mem_map.mp hd
    exact b.toNat_lt

/-- The decimal text of a magnitude has as many characters as the magnitude has digits. -/
theorem length_string_fromBytes (p : Bytes) : (pnBigString (Big.fromBytes p).raw).length =
      digitCount (bigEndian 256 (p.map UInt8.toNat)) := by
  have hval := toInt_fromBytes p
  have hsign : 0 ≤ (Big.fromBytes p).raw.sign := by
    rw [Big.sign_raw, hval]
    exact Int.sign_nonneg_iff.mpr (Int.natCast_nonneg _)
  have hmag : (Big.fromBytes p).raw.magnitude = bigEndian 256 (p.map UInt8.toNat) := by
    rw [← (Big.fromBytes p).normal.natAbs_toInt]
    exact (congrArg Int.natAbs hval).trans (Int.natAbs_natCast _)
  rw [length_pnBigString (Big.fromBytes p).normal hsign, hmag, digitCount]

theorem magnitude_reads (p : Bytes) :
    Reads (view data) (Lifted fun (number : Big) (value : ℕ) => number.toInt = value)
      (magnitude p) (ofOption (toNatural p)) := by
  rw [magnitude, length_string_fromBytes, toNatural]
  refine failIf_reads (fun h => ?_) fun h => failIf_reads (fun hlong => ?_) fun hlong => ?_
  · rw [if_pos h]
    rfl
  · rw [if_neg h]
    simp only [if_neg (not_le.mpr hlong)]
    rfl
  · rw [if_neg h]
    simp only [if_pos (not_lt.mp hlong)]
    exact attempt_pure (toInt_fromBytes p)

theorem readNat_reads :
    Reads (view data) (Lifted fun (number : Big) (value : ℕ) => number.toInt = value) readNat
      Format.natural.parse := by
  refine (attempt_bind_eq u16_reads fun n => ?_).congr (pmap_counted _ _ _)
  refine failIf_reads (fun h => if_neg (not_le.mpr h)) fun h => ?_
  rw [if_pos (not_lt.mp h), pmap_eq_bind]
  exact attempt_bind_eq (take_reads n) magnitude_reads

/-! ## Constants -/

theorem nibble_cons (byte : UInt8) (p : Bytes) (i : ℕ) :
    nibble (byte :: p) (i + 2) = nibble p i := by
  have hmod : (i + 2) % 2 = i % 2 := by omega
  have hdiv : (i + 2) / 2 = i / 2 + 1 := by omega
  rw [nibble, nibble, hmod, hdiv, getD_cons_succ]

theorem map_nibble_cons (byte : UInt8) (p : Bytes) (n : ℕ) :
    (range (n + 2)).map (nibble (byte :: p)) =
      byte.toNat / 16 :: byte.toNat % 16 :: (range n).map (nibble p) := by
  rw [range_succ_eq_map, range_succ_eq_map, map_cons, map_map, map_cons, map_map]
  refine congrArg₂ cons rfl (congrArg₂ cons rfl (map_congr_left fun i _ => ?_))
  exact nibble_cons byte p i

/-- The digits are read one by one, and then the padding; the format reads byte by byte. -/
theorem unpack_eq : ∀ (n : ℕ) (p : Bytes), p.length = (n + 1) / 2 → unpack n p =
      if (∀ d ∈ (range n).map (nibble p), d ≤ 9) ∧
          ¬ (n % 2 = 1 ∧ (p.getD ((n + 1) / 2 - 1) 0).toNat % 16 ≠ 15) then
        some ((range n).map (nibble p))
      else none
  | 0, [], _ => by simp [unpack]
  | 1, [byte], _ => by simp [unpack, nibble, range_succ]
  | n + 2, byte :: p, h => by
    have hlen : p.length = (n + 1) / 2 := by
      simp only [length_cons] at h
      omega
    have hlast : (byte :: p).getD ((n + 2 + 1) / 2 - 1) 0 =
        if n = 0 then byte else p.getD ((n + 1) / 2 - 1) 0 := by
      split_ifs with h0
      · subst h0
        rfl
      · rw [show (n + 2 + 1) / 2 - 1 = (n + 1) / 2 - 1 + 1 by omega, getD_cons_succ]
    have hpad : (n + 2) % 2 = 1 ∧ ((byte :: p).getD ((n + 2 + 1) / 2 - 1) 0).toNat % 16 ≠ 15 ↔
        n % 2 = 1 ∧ (p.getD ((n + 1) / 2 - 1) 0).toNat % 16 ≠ 15 := by
      rw [hlast, show (n + 2) % 2 = n % 2 by omega]
      refine and_congr_right fun hodd => ?_
      rw [if_neg (by omega)]
    rw [unpack, unpack_eq n p hlen, map_nibble_cons]
    simp only [forall_mem_cons, hpad]
    by_cases hbyte : byte.toNat / 16 ≤ 9 ∧ byte.toNat % 16 ≤ 9
    · rw [if_pos hbyte]
      by_cases hrest : (∀ d ∈ (range n).map (nibble p), d ≤ 9) ∧
          ¬ (n % 2 = 1 ∧ (p.getD ((n + 1) / 2 - 1) 0).toNat % 16 ≠ 15)
      · rw [if_pos hrest, if_pos ⟨⟨hbyte.1, hbyte.2, hrest.1⟩, hrest.2⟩]
        rfl
      · rw [if_neg hrest, if_neg fun hall => hrest ⟨hall.1.2.2, hall.2⟩]
        rfl
    · rw [if_neg hbyte, if_neg fun hall => hbyte ⟨hall.1.1, hall.1.2.1⟩]
  | 0, _ :: _, h | 1, [], h | 1, _ :: _ :: _, h => by simp at h
  | _ + 2, [], h => by
    simp only [length_nil] at h
    omega

theorem toInt_fromDigits {digits : List ℕ} (h : ∀ d ∈ digits, d ≤ 9) (sign : ℤ) :
    (Big.fromDigits digits sign).toInt =
      (if sign < 0 then -1 else 1) * (bigEndian 10 digits : ℕ) := by
  have hid : digits.map (· % 10) = digits := by
    refine (map_congr_left fun d hd => ?_).trans (map_id digits)
    exact mod_eq_of_lt (by have := h d hd; omega)
  have hlt : ∀ d ∈ digits, d < 10 := fun d hd => by
    have := h d hd
    omega
  show (pnBigFromDigits (digits.map (· % 10)) sign).toInt = _
  rw [hid]
  exact (pnBigFromDigits_spec hlt sign).2

theorem int16_eq {encoded : ℕ} (h : encoded < 65536) :
    int16 encoded = if 32768 ≤ encoded then -(i16Magnitude encoded : ℤ)
      else i16Magnitude encoded := by
  rw [int16, i16Magnitude]
  split_ifs <;> omega

theorem decimalDigits_reads {sign enc digits : ℕ} {p : Bytes} (henc : enc < 65536)
    (hlen : p.length = (digits + 1) / 2)
    (hflds : sign ≤ 1 ∧ i16Magnitude enc ≤ 4096 ∧ digits ≠ 0 ∧ digits ≤ 4096) :
    Reads (view data) (Lifted SameConstant) (decimalDigits sign (int16 enc) digits p)
      (ofOption (toDecimal (sign, enc, digits, p))) := by
  have hval : ((range digits).map (nibble p)).length = digits := by simp
  rw [toDecimal, if_pos hflds, unpack_eq digits p hlen, decimalDigits]
  generalize (range digits).map (nibble p) = value at *
  refine failIf_reads (fun h => ?_) fun h => failIf_reads (fun hpad => ?_) fun hpad => ?_
  · rw [if_neg fun hall => h hall.1]
    rfl
  · rw [if_neg fun hall => hall.2 hpad]
    rfl
  have hall : (∀ d ∈ value, d ≤ 9) ∧
      ¬ (digits % 2 = 1 ∧ (p.getD ((digits + 1) / 2 - 1) 0).toNat % 16 ≠ 15) := ⟨not_not.mp h, hpad⟩
  rw [if_pos hall]
  simp only [hval]
  refine failIf_reads (fun hzero => ?_) fun hzero => ?_
  · rw [if_pos hzero]
    rfl
  rw [if_neg hzero]
  have hsign : decide (sign ≠ 0) = decide (sign = 1) := by
    refine decide_eq_decide.mpr ?_
    omega
  refine attempt_pure ⟨hsign, ?_, ?_⟩
  · rw [toInt_fromDigits hall.1]
    refine congrArg (· * _) ?_
    rcases (show sign = 0 ∨ sign = 1 by omega) with rfl | rfl <;> rfl
  · simp only [decide_eq_true_eq]
    exact int16_eq henc

theorem sticky_decimalDigits (sign : ℕ) (expo : ℤ) (digits : ℕ) (p : Bytes) :
    Sticky (view data) (decimalDigits sign expo digits p) :=
  bind (sticky_failIf _ _) fun _ => bind (sticky_failIf _ _) fun _ =>
    bind (sticky_failIf _ _) fun _ => pure _

theorem readDecimal_reads :
    Reads (view data) (Lifted SameConstant) readDecimal Format.decimal.parse := by
  have hprs : Format.decimal.parse = bind Format.u8.parse fun sign =>
      bind Format.u16.parse fun enc => bind Format.u16.parse fun digits =>
          bind (block ((digits + 1) / 2)).parse fun p =>
            ofOption (Format.toDecimal (sign, enc, digits, p)) := by
    refine (pmap_pair _ _ _).trans (congrArg _ (funext fun sign => ?_))
    refine (pmap_pair _ _ _).trans (congrArg _ (funext fun enc => ?_))
    refine (pmap_pair _ _ _).trans (congrArg _ (funext fun digits => ?_))
    exact pmap_eq_bind _ _
  have hsticky : ∀ sign enc digits, Sticky (view data) (do
      Decode.failIf (1 < sign ∨ digits = 0 ∨ 4096 < int16 enc ∨ int16 enc < -4096 ∨
        4096 < digits) "invalid decimal"
      let p ← take ((digits + 1) / 2)
      decimalDigits sign (int16 enc) digits p) := fun sign enc digits =>
    bind (sticky_failIf _ _) fun _ => bind (take_reads _).stuck fun p =>
      sticky_decimalDigits sign _ digits p
  rw [hprs]
  refine attempt_bind_eq u8_reads fun sign => ?_
  refine attempt_bind u16_reads.attempt_with_ok (fun enc _ h => ?_)
    fun enc => bind u16_reads.stuck fun digits => hsticky sign enc digits
  obtain ⟨rfl, hok⟩ := h
  refine attempt_bind_eq u16_reads fun digits => ?_
  have henc := u16_ok_iff.mp hok
  -- the range tests of the fields, with the exponent as a sign and a magnitude
  have hrange : (1 < sign ∨ digits = 0 ∨ 4096 < int16 enc ∨ int16 enc < -4096 ∨ 4096 < digits) ↔
      ¬ (sign ≤ 1 ∧ i16Magnitude enc ≤ 4096 ∧ digits ≠ 0 ∧ digits ≤ 4096) := by
    rw [int16_eq henc]
    split_ifs <;> omega
  refine failIf_reads (fun h => ?_) fun h => ?_
  · exact bind_eq_fail fun p => congrArg ofOption (if_neg (hrange.mp h))
  have hflds := not_not.mp (mt hrange.mpr h)
  refine attempt_bind (take_reads _).attempt_with_ok (fun p _ htaken => ?_)
    fun p => sticky_decimalDigits sign _ digits p
  obtain ⟨rfl, hlen⟩ := htaken
  exact decimalDigits_reads henc hlen hflds

theorem readInteger_reads :
    Reads (view data) (Lifted SameConstant) readInteger (Format.constantBody 1).parse := by
  refine (attempt_bind_eq u8_reads fun sign => ?_).congr (pmap_pair _ _ _)
  rw [pmap_eq_bind]
  refine failIf_reads (fun h => ?_) fun h => ?_
  · exact bind_eq_fail fun n => congrArg ofOption (if_neg fun hall => not_le.mpr h hall.1)
  refine attempt_bind readNat_reads (fun number value hval => ?_)
    fun number => bind (sticky_failIf _ _) fun _ => pure _
  have hzero : number.isZero = true ↔ value = 0 := by
    rw [Big.isZero_iff, hval]
    exact Int.natCast_eq_zero
  have hsign : sign = 0 ∨ sign = 1 := by omega
  rw [Format.toInteger]
  refine failIf_reads (fun hbad => ?_) fun hbad => ?_
  · rw [if_neg fun hall => hall.2 ⟨by have := hbad.1; simp only; omega, hzero.mp hbad.2⟩]
    rfl
  have hgood : sign ≤ 1 ∧ ¬ (sign = 1 ∧ value = 0) :=
    ⟨not_lt.mp h, fun hboth => hbad ⟨by omega, hzero.mpr hboth.2⟩⟩
  simp only [if_pos hgood]
  refine attempt_pure ?_
  rcases hsign with rfl | rfl
  · exact hval
  · show (Big.neg number).toInt = -(value : ℤ)
    rw [Big.toInt_neg, hval]

theorem readBool_reads : Reads (view data) (Lifted SameConstant) (constantBody 4)
      (Format.constantBody 4).parse := by
  refine (attempt_bind_eq u8_reads fun sign => ?_).congr (pmap_eq_bind _ _)
  rw [Format.toBool]
  refine failIf_reads (fun h => ?_) fun h => ?_
  · rw [if_neg (not_le.mpr h)]
    rfl
  · rw [if_pos (not_lt.mp h)]
    refine attempt_pure ?_
    rcases (show sign = 0 ∨ sign = 1 by omega) with rfl | rfl <;> rfl

theorem constantBody_reads : ∀ tag : ℕ, Reads (view data) (Lifted SameConstant) (constantBody tag)
      (Format.constantBody tag).parse
  | 0 => readNat_reads.attempt_map fun _ _ h => h
  | 1 => readInteger_reads
  | 2 => readDecimal_reads
  | 3 => text_false_reads.attempt_map fun _ _ h => congrArg Str.bytes h
  | 4 => readBool_reads
  | 5 => attempt_pure trivial
  | _ + 6 => fail_reads _

theorem readConstant_reads : Reads (view data) (Lifted SameConstant) readConstant constant.parse :=
  attempt_bind_eq u8_reads constantBody_reads

/-! ## Instructions -/

theorem repeated_reads {item : Decode α} (h : Reads (view data) (Lifted Q) item p) (count : ℕ) :
    Reads (view data) (Lifted (List.Forall₂ Q)) (repeated item count) (many p count) := by
  have hproc : ∀ r, (view data).good r → r.error.isNone = true := fun r hr => by
    rw [hr.1]
    rfl
  exact Reads.attempt_many hproc h count

theorem operator_reads (limit : ℕ) (msg : String) :
    Reads (view data) (Lifted Eq) (operator limit msg) (pmap Format.u8.parse fun code =>
        if code ≤ limit then some code else none) := by
  rw [pmap_eq_bind]
  refine attempt_bind_eq u8_reads fun code => failIf_reads (fun h => ?_) fun h => ?_
  · rw [if_neg (not_le.mpr h)]
    rfl
  · rw [if_pos (not_lt.mp h)]
    exact attempt_pure rfl

theorem operatorThen_reads (limit : ℕ) (msg : String) {mk : ℕ → Instruction}
    {mk' : ℕ → Bytecode.Instruction} (h : ∀ code, SameInstruction SameName (mk code) (mk' code)) :
    Reads (view data) (Lifted (SameInstruction SameName))
      (operator limit msg >>= fun code => pure (mk code) : Decode Instruction)
      (pmap Format.u8.parse fun code =>
        if code ≤ limit then some (mk' code) else none) := by
  refine ((operator_reads limit msg).attempt_map (Q := SameInstruction SameName) (k := mk)
    (l := mk') fun a b hab => hab ▸ h a).congr ?_
  rw [Parser.pmap_pmap]
  refine congrArg _ (funext fun code => ?_)
  split_ifs <;> rfl

variable {f : Decode α}

theorem operand_reads (hf : Reads (view data) (Lifted Q) f p)
    {mk : α → Instruction} {mk' : β → Bytecode.Instruction}
    (h : ∀ a b, Q a b → SameInstruction SameName (mk a) (mk' b)) :
    Reads (view data) (Lifted (SameInstruction SameName))
      (f >>= fun a => pure (mk a) : Decode Instruction) (pmap p fun b => some (mk' b)) :=
  hf.attempt_map h

theorem nameThen_reads {c : Codec UInt8 β}
    (hf : Reads (view data) (Lifted Q) f c.parse) {mk : CString → α → Instruction}
    {mk' : Str → β → Bytecode.Instruction}
    (h : ∀ n n' a b, SameName n n' → Q a b → SameInstruction SameName (mk n a) (mk' n' b)) :
    Reads (view data) (Lifted (SameInstruction SameName))
      (name >>= fun n => f >>= fun a => pure (mk n a) : Decode Instruction)
      (pmap (Format.name.pair fun _ => c).parse fun x => some (mk' x.1 x.2)) := by
  rw [pmap_pair]
  exact attempt_bind name_reads (fun n n' hn => operand_reads hf fun a b hab => h n n' a b hn hab)
    fun n => bind hf.stuck fun a => pure _

/-- An instruction with two names and another operand; the names are read before either is
looked at. -/
theorem nameTwice_reads {c : Codec UInt8 α}
    (hf : Reads (view data) (Lifted Eq) f c.parse) {mk : CString → CString → α → Instruction}
    {mk' : Str → Str → α → Bytecode.Instruction} (h : ∀ n n' m m' a, SameName n n' → SameName m m' →
      SameInstruction SameName (mk n m a) (mk' n' m' a)) :
    Reads (view data) (Lifted (SameInstruction SameName))
      (Attempt.both name name >>= fun names => f >>= fun a => pure (mk names.1 names.2 a) :
        Decode Instruction) (pmap (Format.name.pair fun _ => Format.name.pair fun _ => c).parse
        fun x => some (mk' x.1 x.2.1 x.2.2)) := by
  refine (attempt_bind (Reads.attempt_both name_reads name_reads)
    (q := fun names => pmap c.parse fun a => some (mk' names.1 names.2 a))
    (fun names names' hnames => operand_reads hf fun a b hab => ?_)
    fun names => bind hf.stuck fun a => pure _).congr ?_
  · rw [hab]
    exact h _ _ _ _ b hnames.1 hnames.2
  · rw [pmap_pair, bind_assoc]
    refine congrArg _ (funext fun n => ?_)
    rw [pmap_pair, bind_assoc]
    rfl

theorem interpolate_reads :
    Reads (view data) (Lifted (SameInstruction SameName)) (instructionBody 9)
      (Format.operand 9).parse := by
  refine (attempt_bind_eq u16_reads fun count => ?_).congr (pmap_list _ _ _)
  exact operand_reads (repeated_reads (cString_reads text_false_reads) count) fun _ _ h => h

theorem makeRecord_reads :
    Reads (view data) (Lifted (SameInstruction SameName)) (instructionBody 12)
      (Format.operand 12).parse := by
  have hitems : ∀ count, Reads (view data) (Lifted (List.Forall₂ SameName))
      (strings count true) _ :=
    fun count => repeated_reads (cString_reads text_true_reads) count
  refine (attempt_bind name_reads (fun n n' hn => ?_) fun n => ?_).congr (pmap_pair _ _ _)
  · refine (attempt_bind_eq u16_reads fun count => ?_).congr (pmap_list _ _ _)
    exact operand_reads (hitems count) fun _ _ h => ⟨hn, h⟩
  · exact bind u16_reads.stuck fun count =>
      bind (hitems count).stuck fun _ => pure _

theorem instructionBody_reads : ∀ op : ℕ,
    Reads (view data) (Lifted (SameInstruction SameName)) (instructionBody op)
      (Format.operand op).parse
  | 0 => operand_reads readConstant_reads fun _ _ h => h
  | 1 | 2 | 10 | 13 => operand_reads name_reads fun _ _ h => h
  | 3 | 6 | 8 | 16 | 20 => attempt_pure trivial
  | 4 => operatorThen_reads 1 _ fun _ => rfl
  | 5 => operatorThen_reads 12 _ fun _ => rfl
  | 7 => operand_reads u16_reads fun _ _ h => h
  | 9 => interpolate_reads
  | 11 => nameTwice_reads u32_reads fun _ _ _ _ _ hn hm => ⟨hn, hm, rfl⟩
  | 12 => makeRecord_reads
  | 14 => nameTwice_reads u16_reads fun _ _ _ _ _ hn hm => ⟨hn, hm, rfl⟩
  | 15 => nameThen_reads u32_reads fun _ _ _ _ hn h => ⟨hn, h⟩
  | 17 | 22 => nameThen_reads u8_reads fun _ _ _ _ hn h => ⟨hn, h⟩
  | 18 | 19 => operand_reads u32_reads fun _ _ h => h
  | 21 | 23 => operand_reads u8_reads fun _ _ h => h
  | _ + 24 => fail_reads _

theorem instruction_reads : Reads (view data) (Lifted (SameInstruction SameName)) instruction
      Format.instruction.parse :=
  attempt_bind_eq u8_reads instructionBody_reads

/-! ## Programs -/

/-- A decoded function before verification. -/
def Decoded (f : Function) (g : FunctionCode) : Prop :=
  SameFunction SameName f g ∧ f.localEffect = false

/-- A decoded function with the number of instructions so far, of which `total` precede it. -/
def DecodedAfter (total : ℕ) (out : Function × ℕ) (g : FunctionCode) : Prop :=
  Decoded out.1 g ∧ out.2 = total + g.instructions.length ∧ out.2 ≤ 4000000

/-- The limit on the instructions of a program, when `total` of them precede. -/
def within (total : ℕ) (functions : List FunctionCode) : Option (List FunctionCode) :=
  if total + totalInstructions functions ≤ 4000000 then some functions else none

/-- The same for one function. -/
def withinOne (total : ℕ) (f : FunctionCode) : Option FunctionCode :=
  if total + f.instructions.length ≤ 4000000 then some f else none

theorem functionCode_parse (total : ℕ) : pmap Format.functionCode.parse (withinOne total) =
      bind Format.name.parse fun name =>
        bind Format.u8.parse fun flags =>
          bind Format.u8.parse fun count =>
            bind (Format.name.many count).parse fun params =>
              bind Format.u32.parse fun ins =>
                bind (Format.instruction.many ins).parse fun body =>
                  ofOption ((Format.toFunction (name, flags, params, body)).bind
                    (withinOne total)) := by
  refine (pmap_pmap _ _ _).trans ((pmap_pair _ _ _).trans
    (congrArg _ (funext fun name => ?_)))
  refine (pmap_pair _ _ _).trans (congrArg _ (funext fun flags => ?_))
  refine (pmap_pair _ _ _).trans ?_
  rw [Codec.list_parse, bind_assoc]
  refine congrArg _ (funext fun count => congrArg _ (funext fun params => ?_))
  refine (pmap_list _ _ _).trans (congrArg _ (funext fun ins => ?_))
  exact pmap_eq_bind _ _

theorem functionBody_reads (total : ℕ) {fname : CString} {name : Str} {flags : ℕ}
    {params : List CString}
    {parameters : List Str} (ins : ℕ) (hname : SameName fname name) (hflg : flags ≤ 2)
    (hparams : List.Forall₂ SameName params parameters) :
    Reads (view data) (Lifted (DecodedAfter total)) (functionBody total fname flags params ins)
      (bind (Format.instruction.many ins).parse fun body =>
        ofOption ((Format.toFunction (name, flags, parameters, body)).bind (withinOne total))) := by
  refine failIf_reads (fun h => Codec.bind_eq_fail _ fun body hok => ?_) fun h => ?_
  · have hlen : body.length = ins := hok.1
    rw [Format.toFunction]
    split_ifs with hfits
    · rw [Option.bind_some, withinOne, if_neg]
      · rfl
      · show ¬ total + body.length ≤ 4000000
        omega
    · rfl
  · have hmany : Reads (view data) _ _ (Format.instruction.many ins).parse :=
      repeated_reads instruction_reads ins
    refine attempt_bind hmany.attempt_with_ok (fun body body' hsame => ?_) fun body => pure _
    obtain ⟨hins, hlen, -⟩ := hsame
    have hfits : flags ≤ 2 ∧ body'.length ≤ 1000000 := ⟨hflg, by omega⟩
    have hin : total + body'.length ≤ 4000000 := by omega
    rw [Format.toFunction, if_pos hfits, Option.bind_some, withinOne, if_pos hin]
    refine attempt_pure ⟨⟨⟨hname, rfl, rfl, hparams, hins⟩, rfl⟩, ?_, by omega⟩
    rw [← hlen]

theorem sticky_functionBody (total : ℕ) (name : CString) (flags : ℕ) (params : List CString)
    (ins : ℕ) : Sticky (view data) (functionBody total name flags params ins) :=
  bind (sticky_failIf _ _) fun _ =>
    bind (repeated_reads instruction_reads ins).stuck fun _ => pure _

theorem function_reads (total : ℕ) : Reads (view data) (Lifted (DecodedAfter total))
      (function total) (pmap Format.functionCode.parse (withinOne total)) := by
  rw [functionCode_parse]
  have hparams : ∀ count, Reads (view data) (Lifted (List.Forall₂ SameName)) (repeated name count)
      (Format.name.many count).parse := repeated_reads name_reads
  refine attempt_bind name_reads (fun fname name hname => ?_) fun fname =>
    bind u8_reads.stuck fun flags => bind (sticky_failIf _ _) fun _ =>
      bind u8_reads.stuck fun count => bind (hparams count).stuck fun params =>
        bind u32_reads.stuck fun ins => sticky_functionBody total fname flags params ins
  refine attempt_bind_eq u8_reads fun flags => failIf_reads (fun h => ?_) fun h => ?_
  · -- the format checks the flags at the end
    refine bind_eq_fail fun count => bind_eq_fail fun params =>
      bind_eq_fail fun ins => bind_eq_fail fun body => ?_
    rw [Format.toFunction, if_neg fun hfits => not_le.mpr h hfits.1]
    rfl
  · refine attempt_bind_eq u8_reads fun count => ?_
    refine attempt_bind (hparams count) (fun params parameters hsame => ?_) fun params =>
      bind u32_reads.stuck fun ins => sticky_functionBody total fname flags params ins
    exact attempt_bind_eq u32_reads fun ins =>
      functionBody_reads total ins hname (not_lt.mp h) hsame

theorem sticky_functionLoop : ∀ count total : ℕ, Sticky (view data) (functionLoop count total)
  | 0, _ => pure []
  | count + 1, total => by
    intro r hr
    rw [functionLoop_succ]
    split_ifs
    · exact bind (function_reads total).stuck (fun f =>
        bind (sticky_functionLoop count f.2) fun fns => pure _) r hr
    · exact hr

/-- The limit on all functions is a limit on the first one and on the rest. -/
theorem many_within (p : Parser UInt8 FunctionCode) (count total : ℕ) :
    pmap (many p (count + 1)) (within total) = bind (pmap p (withinOne total)) fun g =>
        bind (pmap (many p count) (within (total + g.instructions.length)))
          fun gs => pure (g :: gs) := by
  have hsum : ∀ g gs, totalInstructions (g :: gs) =
      g.instructions.length + totalInstructions gs := fun g gs => by simp [totalInstructions]
  rw [pmap_eq_bind, many, bind_assoc, pmap_eq_bind p, bind_assoc]
  refine congrArg _ (funext fun g => ?_)
  rw [bind_assoc]
  simp only [pure_bind]
  by_cases hone : total + g.instructions.length ≤ 4000000
  · rw [withinOne, if_pos hone, ofOption, pure_bind, pmap_eq_bind, bind_assoc]
    refine congrArg _ (funext fun gs => ?_)
    rw [within, within, hsum, ← add_assoc]
    split_ifs <;> rfl
  · rw [withinOne, if_neg hone]
    refine bind_eq_fail fun gs => ?_
    rw [within, hsum, if_neg (by omega)]
    rfl

theorem functionLoop_reads : ∀ {count total : ℕ}, total ≤ 4000000 →
    Reads (view data) (Lifted (List.Forall₂ Decoded)) (functionLoop count total)
      (pmap (many functionCode.parse count) (within total))
  | 0, total, htotal => by
    have hnil : Parser.pmap (Parser.many functionCode.parse 0) (within total) = Parser.pure [] := by
      funext s
      simp [Parser.pmap, Parser.many, Parser.pure, within, totalInstructions, htotal]
    rw [hnil]
    exact attempt_pure List.Forall₂.nil
  | count + 1, total, htotal => by
    have hnext : Reads (view data) (Lifted (List.Forall₂ Decoded))
        (function total >>= fun f => functionLoop count f.2 >>= fun fns =>
          pure (f.1 :: fns) : Decode (List Function))
        (pmap (many functionCode.parse (count + 1)) (within total)) := by
      rw [many_within]
      refine attempt_bind (function_reads total) (fun f g hfg => ?_)
        fun f => bind (sticky_functionLoop count f.2) fun fs => pure _
      rw [← hfg.2.1]
      refine attempt_bind (functionLoop_reads hfg.2.2) (fun fs gs hfs => ?_) fun fs => pure _
      exact attempt_pure (List.Forall₂.cons hfg.1 hfs)
    refine ⟨sticky_functionLoop _ _, fun r hr => ?_⟩
    have hproc : r.error.isNone := by
      rw [hr.1]
      rfl
    rw [functionLoop_succ, if_pos hproc]
    exact hnext.agrees r hr

/-- A function of the format's magic. -/
def checkMagic (start : Bytes) : Option Bytes :=
  if start = magic then some start else none

theorem header_reads : Reads (view data) (Lifted fun _ start => start = magic) header
      (pmap (block 9).parse checkMagic) where
  stuck r hr := by
    have htake := (take_reads 9).stuck r hr
    rw [header]
    split
    case h_1 taken magic heq =>
      rw [heq] at htake
      split_ifs
      · exact htake
      · exact bad_fail r _
    case h_2 => exact bad_fail r _
  agrees r hr := by
    have hagree := (take_reads 9).agrees r hr
    rw [header, Parser.pmap]
    cases hp : (block 9).parse ((view data).rest r) with
    | none =>
      rw [hp] at hagree
      have hnone : (take 9 r).2 = none := by
        rw [take]
        split_ifs with hshort
        · rfl
        -- enough bytes are left, but the block of nine has failed
        exfalso
        have hlen : ((view data).rest r).length = data.length - r.position := length_drop
        rw [hr.2.1] at hshort
        simp only [block, if_pos (show 9 ≤ ((view data).rest r).length by omega)] at hp
        cases hp
      rw [show take 9 r = ((take 9 r).1, none) from Prod.ext rfl hnone]
      exact bad_fail r _
    | some out =>
      obtain ⟨start, mid⟩ := out
      rw [hp] at hagree
      obtain ⟨hgood, hrest, magic, hmagic, rfl⟩ := hagree
      rw [show take 9 r = ((take 9 r).1, some magic) from Prod.ext rfl hmagic]
      simp only [checkMagic]
      split_ifs with h
      · exact ⟨hgood, hrest, (), rfl, h⟩
      · exact bad_fail r _

theorem functionTable_parse : Format.functionTable.parse =
      bind (pmap (block 9).parse checkMagic) fun start =>
        bind Format.u16.parse fun version =>
          bind Format.u16.parse fun count =>
            pmap (Format.functionCode.many count).parse fun fns =>
              Format.toTable (start, version, fns) := by
  have hpairs : Format.functionTable.parse = bind (block 9).parse fun start =>
        bind Format.u16.parse fun version => bind Format.u16.parse fun count =>
            pmap (Format.functionCode.many count).parse fun fns =>
              Format.toTable (start, version, fns) := by
    refine (pmap_pair _ _ _).trans (congrArg _ (funext fun start => ?_))
    refine (pmap_pair _ _ _).trans (congrArg _ (funext fun version => ?_))
    exact pmap_list _ _ _
  rw [hpairs, pmap_eq_bind, bind_assoc]
  refine congrArg _ (funext fun start => ?_)
  rw [checkMagic]
  split_ifs with h
  · rfl
  refine bind_eq_fail fun version => bind_eq_fail fun count => ?_
  rw [pmap_eq_bind]
  refine bind_eq_fail fun fns => ?_
  rw [Format.toTable, if_neg fun hall => h hall.1]
  rfl

theorem functionTable_reads : Reads (view data) (Lifted (List.Forall₂ Decoded)) functionTable
      Format.functionTable.parse := by
  rw [functionTable_parse]
  refine attempt_bind header_reads (fun _ start hstart => ?_) fun _ =>
    bind u16_reads.stuck fun version => bind (sticky_failIf _ _) fun _ =>
      bind u16_reads.stuck fun count => bind (sticky_failIf _ _) fun _ =>
        sticky_functionLoop count 0
  refine attempt_bind_eq u16_reads fun version => failIf_reads (fun h => ?_) fun h => ?_
  · refine bind_eq_fail fun count => ?_
    rw [pmap_eq_bind]
    refine bind_eq_fail fun fns => ?_
    rw [Format.toTable, if_neg fun hall => h hall.2.1]
    rfl
  · refine attempt_bind_eq u16_reads fun count => failIf_reads (fun hcnt => ?_) fun hcnt => ?_
    · rw [pmap_eq_bind]
      refine Codec.bind_eq_fail _ fun fns hok => ?_
      have hlen : fns.length = count := hok.1
      rw [Format.toTable, if_neg fun hall => by have := hall.2.2.1; omega]
      rfl
    · refine (functionLoop_reads (zero_le _)).congr
        (Codec.pmap_congr (functionCode.many count) fun fns hok => ?_)
      have hlen : fns.length = count := hok.1
      rw [Format.toTable, within, zero_add]
      by_cases htotal : totalInstructions fns ≤ 4000000
      · rw [if_pos htotal, if_pos ⟨hstart, not_not.mp h, by omega, htotal⟩]
      · rw [if_neg htotal, if_neg fun hall => htotal hall.2.2.2]

theorem finish_of_good {r : Reader} (fns : List Function) (h : r.error = none) :
    finish r (some fns) =
      if r.position = r.data.length then .ok ⟨fns, false⟩ else .error "trailing data" := by
  obtain ⟨data, pos, error⟩ := r
  subst h
  by_cases hend : pos = data.length <;> simp [finish, Reader.fail, hend]

theorem finish_of_bad {r : Reader} {fns : Option (List Function)} {p : Program}
    (h : r.error.isSome) : finish r fns ≠ .ok p := by
  obtain ⟨e, he⟩ := Option.isSome_iff_exists.mp h
  simp [finish, he]

end Decoder

open Decoder

/-- An artifact that the format's parser accepts completely is decoded. -/
theorem decode_of_parse {data : Bytes} {gs : List FunctionCode} (hsize : data.length ≤ 16777216)
    (h : functionTable.parse data = some (gs, [])) :
    ∃ fns, decode data = .ok ⟨fns, false⟩ ∧ List.Forall₂ Decoded fns gs := by
  have hagree := functionTable_reads.agrees ⟨data, 0, none⟩
    (show (view data).good _ from ⟨rfl, rfl, zero_le _⟩)
  rw [show (view data).rest ⟨data, 0, none⟩ = data from rfl, h] at hagree
  obtain ⟨⟨herr, hdata, hpos⟩, hrest, fns, hfns, hsame⟩ := hagree
  have hend : (functionTable ⟨data, 0, none⟩).1.position =
      (functionTable ⟨data, 0, none⟩).1.data.length := by
    have hge := drop_eq_nil_iff.mp hrest
    rw [hdata]
    omega
  refine ⟨fns, ?_, hsame⟩
  simp only [decode, if_neg (not_lt.mpr hsize), hfns]
  rw [finish_of_good fns herr, if_pos hend]

/-- What is decoded is an artifact that the format's parser accepts completely. -/
theorem parse_of_decode {data : Bytes} {p : Program} (h : decode data = .ok p) :
    data.length ≤ 16777216 ∧ p.verifiedFunctionOrder = false ∧
      ∃ gs, functionTable.parse data = some (gs, []) ∧ List.Forall₂ Decoded p.functions gs := by
  have hagree := functionTable_reads.agrees ⟨data, 0, none⟩
    (show (view data).good _ from ⟨rfl, rfl, zero_le _⟩)
  rw [show (view data).rest ⟨data, 0, none⟩ = data from rfl] at hagree
  simp only [decode] at h
  split_ifs at h with hsize
  refine ⟨not_lt.mp hsize, ?_⟩
  generalize functionTable ⟨data, 0, none⟩ = out at h hagree
  obtain ⟨r, fns⟩ := out
  rcases hp : functionTable.parse data with _ | ⟨gs, rest⟩
  · rw [hp] at hagree
    exact absurd h (finish_of_bad hagree)
  rw [hp] at hagree
  obtain ⟨⟨herr, hdata, hpos⟩, hrest, fs, rfl, hsame⟩ := hagree
  rw [finish_of_good fs herr] at h
  split_ifs at h with hend
  cases h
  have hnil : rest = [] := by
    rw [← hrest]
    exact drop_eq_nil_iff.mpr (hdata ▸ hend.ge)
  exact ⟨rfl, gs, by rw [hnil], hsame⟩

end Panackelty.Vm
