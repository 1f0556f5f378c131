import Panackelty.Bytecode.Verify
import Panackelty.Library.Keyed

/-!
# Encoding and decoding are inverse

* `roundTripBytecode_of_decodeBytecode`: an accepted artifact is what the encoder writes for the
  program it holds.
* `decodeBytecode_of_emitted`: what the encoder writes for an emitted program within the limits is
  accepted, and gives the program back in canonical form.
-/

namespace Panackelty.Bytecode

open Library ByteReader List Format FunctionCode DecimalNumeral Str

variable {f : FunctionCode} {functions : List FunctionCode} {name : Str}

/-! ## The order of functions -/

theorem insertFunction_of_not_lt : ∀ {functions : List FunctionCode},
    (∀ g ∈ functions, ¬ f.name < g.name) → insertFunction f functions = functions ++ [f]
  | [], _ => rfl
  | g :: functions, h => by
    rw [insertFunction, if_neg (h g mem_cons_self),
      insertFunction_of_not_lt fun x hx => h x (mem_cons_of_mem _ hx), cons_append]

theorem foldl_insertFunction_of_sorted : ∀ {functions res : List FunctionCode},
    SortedNames (res ++ functions) →
    functions.foldl (fun res f => insertFunction f res) res = res ++ functions
  | [], res, _ => by simp
  | f :: functions, res, h => by
    have hafter : ∀ g ∈ res, ¬ f.name < g.name := by
      intro g hg hlt
      have hless := (pairwise_append.mp h).2.2 g hg f mem_cons_self
      exact lt_irrefl _ (lt_trans hlt hless)
    rw [foldl_cons, insertFunction_of_not_lt hafter, foldl_insertFunction_of_sorted,
      append_assoc, singleton_append]
    rwa [append_assoc, singleton_append]

theorem sortFunctions_of_sorted (h : SortedNames functions) : sortFunctions functions = functions :=
  foldl_insertFunction_of_sorted (show SortedNames ([] ++ functions) from h)

theorem insertFunction_perm (f : FunctionCode) : ∀ functions : List FunctionCode,
    (insertFunction f functions).Perm (f :: functions)
  | [] => List.Perm.refl _
  | g :: functions => by
    rw [insertFunction]
    split_ifs
    · exact List.Perm.refl _
    · exact ((insertFunction_perm f functions).cons g).trans (List.Perm.swap f g functions)

theorem sortFunctions_perm (functions : List FunctionCode) :
    (sortFunctions functions).Perm functions := by
  have hfold : ∀ (functions res : List FunctionCode),
      (functions.foldl (fun res f => insertFunction f res) res).Perm (res ++ functions) := by
    intro functions
    induction functions with
    | nil => intro res; simp
    | cons f functions ih =>
      intro res
      exact (ih _).trans (((insertFunction_perm f res).append_right functions).trans
        perm_middle.symm)
  exact hfold functions []

theorem sorted_insertFunction : ∀ {functions : List FunctionCode},
    (∀ g ∈ functions, f.name ≠ g.name) → SortedNames functions →
    SortedNames (insertFunction f functions)
  | [], _, _ => pairwise_singleton _ _
  | g :: functions, hne, h => by
    obtain ⟨hg, hrest⟩ := pairwise_cons.mp h
    rw [insertFunction]
    split_ifs with hlt
    · refine pairwise_cons.mpr ⟨fun x hx => ?_, h⟩
      rcases mem_cons.mp hx with rfl | hx
      · exact hlt
      · exact lt_trans hlt (hg x hx)
    have hgf : g.name < f.name := lt_of_not_lt hlt (hne g mem_cons_self)
    refine pairwise_cons.mpr ⟨fun x hx => ?_,
      sorted_insertFunction (fun x hx => hne x (mem_cons_of_mem _ hx)) hrest⟩
    rcases mem_cons.mp ((insertFunction_perm f functions).mem_iff.mp hx) with rfl | hx
    · exact hgf
    · exact hg x hx

theorem sorted_sortFunctions (h : (functions.map FunctionCode.name).Nodup) :
    SortedNames (sortFunctions functions) := by
  have hfold : ∀ (functions res : List FunctionCode),
      ((res ++ functions).map name).Nodup → SortedNames res →
      SortedNames (functions.foldl (fun res f => insertFunction f res) res) := by
    intro functions
    induction functions with
    | nil => exact fun _ _ hsort => hsort
    | cons f functions ih =>
      intro res hnodup hsort
      have hperm : ((res ++ f :: functions).map name).Perm
          ((insertFunction f res ++ functions).map name) :=
        (perm_middle.trans ((insertFunction_perm f res).symm.append_right functions)).map _
      refine ih _ (hperm.nodup_iff.mp hnodup) (sorted_insertFunction (fun g hg heq => ?_) hsort)
      have hfirst := (perm_middle.map name).nodup_iff.mp hnodup
      rw [map_cons, nodup_cons] at hfirst
      refine hfirst.1 (mem_map.mpr ⟨g, mem_append_left _ hg, heq.symm⟩)
  exact hfold functions [] h List.Pairwise.nil

/-! ## Decoding, then encoding -/

theorem ok_of_readProgram {data : Bytes} (h : readProgram data = .ok functions) :
    functionTable.Ok functions :=
  (functionTable.print_parse (readProgram_eq_ok_iff.mp h).2.1).2

theorem serializeBytecode_of_readProgram {data : Bytes} (h : readProgram data = .ok functions) :
    serializeBytecode ⟨functions⟩ = some data := by
  obtain ⟨_, hprs, hsort⟩ := readProgram_eq_ok_iff.mp h
  have hok := ok_of_readProgram h
  have hlist : (u16.list functionCode).Ok functions := hok.1.2.2
  have hcan : (sortFunctions functions).map canonical = functions := by
    rw [sortFunctions_of_sorted hsort]
    exact (map_congr_left fun f hf =>
      canonical_of_ok ((Codec.list_ok_iff.mp hlist).2 f hf)).trans (map_id _)
  have hser : serializeBytecode ⟨functions⟩ = some (functionTable.print
      ((sortFunctions functions).map canonical)) :=
    serializeBytecode_eq (by rw [hcan]; exact hok)
  rw [hser, hcan, ← functionTable_canonical hprs]

/-- Every artifact that the decoder accepts is the one that the encoder writes for its program, so
no program is read from two artifacts. -/
theorem roundTripBytecode_of_decodeBytecode {data : Bytes} {program : BytecodeProgram}
    (h : decodeBytecode data = .ok program) :
    serializeBytecode program = some data ∧ roundTripBytecode data = some data ∧
      ∀ other, decodeBytecode other = .ok program → other = data := by
  have hser : ∀ bytes, decodeBytecode bytes = .ok program →
      serializeBytecode program = some bytes := fun bytes hdec =>
    serializeBytecode_of_readProgram (decodeBytecode_eq_ok_iff.mp hdec).1
  refine ⟨hser data h, ?_, fun other hoth => ?_⟩
  · rw [roundTripBytecode, h]
    exact hser data h
  · have hsame := (hser other hoth).symm.trans (hser data h)
    exact Option.some.inj hsame

/-- A program of two functions, with a text, a decimal, a call and a jump. -/
def greetProgram : BytecodeProgram :=
  ⟨[⟨ascii "greet", [], false, false,
      [.constInstruction (.stringConstant (ascii "hi")), .returnInstruction]⟩,
    ⟨ascii "main", [], false, false,
      [.constInstruction (.boolConstant true), .jumpFalseInstruction 4,
        .callInstruction (ascii "greet") 0, .returnInstruction,
        .constInstruction (.decimalPartsConstant false [5, 1] false 2), .returnInstruction]⟩]⟩

/-- Its artifact. -/
def greetArtifact : Bytes :=
  magic ++ [0, 9, 0, 2, 0, 5] ++ asciiBytes "greet" ++ [0, 0, 0, 0, 0, 2, 0, 3, 0, 0, 0, 2] ++
    asciiBytes "hi" ++ [20, 0, 4] ++ asciiBytes "main" ++
    [0, 0, 0, 0, 0, 6, 0, 4, 1, 18, 0, 0, 0, 4, 17, 0, 5] ++ asciiBytes "greet" ++
    [0, 20, 0, 2, 0, 0, 2, 0, 2, 81, 20]

theorem roundTripBytecode_greetArtifact : decodeBytecode greetArtifact = .ok greetProgram ∧
      serializeBytecode greetProgram = some greetArtifact ∧
      roundTripBytecode greetArtifact = some greetArtifact ∧
      ∀ other, decodeBytecode other = .ok greetProgram → other = greetArtifact :=
  have hdec : decodeBytecode greetArtifact = .ok greetProgram := by decide +kernel
  ⟨hdec, roundTripBytecode_of_decodeBytecode hdec⟩

/-! ## Emitted programs -/

/-- The constants of the emitter; a number has one form. -/
def ConstantValue.Emitted : ConstantValue → Prop
  | .intConstant negative magnitude => ¬ (negative = true ∧ magnitude = 0)
  | .decimalConstant text => (ofText text).isSome
  | .decimalPartsConstant _ digits exponentNegative exponentMagnitude =>
    digits ≠ [] ∧ (∀ d ∈ digits, d ≤ 9) ∧ (1 < digits.length → digits.head? ≠ some 0) ∧
      (exponentNegative = true → exponentMagnitude ≠ 0)
  | _ => True

instance : DecidablePred ConstantValue.Emitted := fun value => by
  cases value <;> unfold ConstantValue.Emitted <;> infer_instance

/-- The instructions of the emitter: an operator is one of the language, and no jump is pending. -/
def Instruction.Emitted : Instruction → Prop
  | .constInstruction value => value.Emitted
  | .unaryInstruction operator => ∃ code ≤ 1, operator = unaryOperator code
  | .binaryInstruction operator => ∃ code ≤ 12, operator = binaryOperator code
  | .pendingEndJumpInstruction => False
  | _ => True

instance : DecidablePred Instruction.Emitted := fun i => by
  cases i <;> unfold Instruction.Emitted <;> infer_instance

/-- The programs of the emitter. -/
structure BytecodeProgram.Emitted (program : BytecodeProgram) : Prop where
  names : (program.functions.map FunctionCode.name).Nodup
  instructions : ∀ f ∈ program.functions, ∀ i ∈ f.instructions, i.Emitted

/-! ## The limits of the format -/

/-- The size of a number, and of a text in a constant. -/
def ConstantValue.Fits : ConstantValue → Prop
  | .natConstant value => digitCount value ≤ 4096
  | .intConstant _ magnitude => digitCount magnitude ≤ 4096
  | .decimalConstant text => ∀ n ∈ ofText text,
      n.coefficient.length ≤ 4096 ∧ n.fraction.length ≤ 4096
  | .decimalPartsConstant _ digits _ exponentMagnitude =>
    digits.length ≤ 4096 ∧ exponentMagnitude ≤ 4096
  | .stringConstant text => text.bytes.length ≤ 1048576
  | .boolConstant _ | .voidConstant => True

instance : DecidablePred ConstantValue.Fits := fun value => by
  cases value <;> unfold ConstantValue.Fits <;> infer_instance

/-- The bound on the length of a name. -/
def nameFits (name : Str) : Prop := name.bytes.length ≤ 1024

instance : DecidablePred nameFits := fun name =>
  inferInstanceAs (Decidable (name.bytes.length ≤ 1024))

/-- The sizes of names and texts, and the counts, of an operand. -/
def Instruction.Fits : Instruction → Prop
  | .constInstruction value => value.Fits
  | .loadInstruction name | .storeInstruction name => nameFits name
  | .makeArrayInstruction count => count ≤ 65535
  | .interpolateInstruction parts =>
    parts.length ≤ 65535 ∧ ∀ part ∈ parts, part.bytes.length ≤ 1048576
  | .iterInitInstruction name => nameFits name
  | .iterNextInstruction iterator name _ => nameFits iterator ∧ nameFits name
  | .makeRecordInstruction name fields =>
    nameFits name ∧ fields.length ≤ 65535 ∧ ∀ field ∈ fields, nameFits field
  | .fieldGetInstruction name => nameFits name
  | .makeVariantInstruction enumName variant count =>
    nameFits enumName ∧ nameFits variant ∧ count ≤ 65535
  | .matchVariantInstruction variant _ => nameFits variant
  | .callInstruction name arity => nameFits name ∧ arity ≤ 255
  | .callValueInstruction arity => arity ≤ 255
  | .awaitCallInstruction name arity => nameFits name ∧ arity ≤ 255
  | .awaitValueInstruction arity => arity ≤ 255
  | _ => True

instance : DecidablePred Instruction.Fits := fun i => by
  cases i <;> unfold Instruction.Fits <;> infer_instance

/-- What the format has room for. -/
structure FunctionCode.Fits (f : FunctionCode) : Prop where
  name : nameFits f.name
  parameterCount : f.parameters.length ≤ 255
  parameters : ∀ p ∈ f.parameters, nameFits p
  instructionCount : f.instructions.length ≤ 1000000
  instructions : ∀ i ∈ f.instructions, i.Fits

/-- The resource limits of the format, the one on the whole artifact included. -/
structure BytecodeProgram.Fits (program : BytecodeProgram) : Prop where
  functionCount : program.functions.length ≤ 4096
  functions : ∀ f ∈ program.functions, f.Fits
  artifact : ∀ data, serializeBytecode program = some data → data.length ≤ 16777216

theorem DecimalNumeral.coefficient_le (n : DecimalNumeral) : ∀ d ∈ n.coefficient, d ≤ 9 := by
  intro d hd
  rw [coefficient] at hd
  split_ifs at hd
  · simp at hd
    omega
  have hmem := (dropWhile_sublist _).subset hd
  rcases mem_append.mp hmem with h | h
  · exact n.whole_le d h
  · exact n.fraction_le d h

theorem DecimalNumeral.coefficient_ne_nil (n : DecimalNumeral) : n.coefficient ≠ [] := by
  rw [coefficient]
  split_ifs with h
  · simp
  · exact fun hnil => h (length_eq_zero_iff.mpr hnil)

theorem DecimalNumeral.head?_coefficient (n : DecimalNumeral) (h : 1 < n.coefficient.length) :
    n.coefficient.head? ≠ some 0 := by
  rw [coefficient] at h ⊢
  split_ifs at h ⊢ with hzero
  · simp at h
  intro hhead
  have hne : (n.whole ++ n.fraction).dropWhile (· = 0) ≠ [] :=
    fun hnil => hzero (length_eq_zero_iff.mpr hnil)
  have hnot := head_dropWhile_not (fun d : ℕ => decide (d = 0)) hne
  rw [head?_eq_some_head hne, Option.some.injEq] at hhead
  simp [hhead] at hnot

theorem DecimalNumeral.decimalFits (n : DecimalNumeral) (hlen : n.coefficient.length ≤ 4096)
    (hexp : n.fraction.length ≤ 4096) :
    Format.DecimalFits n.coefficient (decide (0 < n.fraction.length)) n.fraction.length where
  digit := n.coefficient_le
  pos := n.coefficient_ne_nil
  length := hlen
  leading := n.head?_coefficient
  exponent := hexp
  zero h := (of_decide_eq_true h).ne'

theorem constant_ok {value : ConstantValue} (hemit : value.Emitted) (hfits : value.Fits) :
    constant.Ok value.canonical := by
  refine ⟨constantTag_ok _, ?_⟩
  cases value with
  | natConstant value => exact ⟨natural_ok_iff.mpr hfits, rfl⟩
  | intConstant negative mag =>
    have hsign : (if negative = true then 1 else 0) < 256 := by cases negative <;> decide
    refine ⟨⟨u8_ok_iff.mpr hsign, natural_ok_iff.mpr hfits⟩, ?_⟩
    show toInteger (if negative = true then 1 else 0, mag) = some (.intConstant negative mag)
    cases negative with
    | false => simp [toInteger]
    | true =>
      have h0 : mag ≠ 0 := fun h0 => hemit ⟨rfl, h0⟩
      simp [toInteger, h0]
  | decimalConstant text =>
    obtain ⟨n, hn⟩ := Option.isSome_iff_exists.mp hemit
    have hlims := hfits n hn
    have hparts : (ConstantValue.decimalConstant text).canonical = n.parts := by
      rw [ConstantValue.canonical, hn]
      rfl
    rw [hparts]
    exact decimal_ok (n.decimalFits hlims.1 hlims.2)
  | decimalPartsConstant negative digits expNeg expMag =>
    obtain ⟨hne, hdigit, hlead, hzero⟩ := hemit
    exact decimal_ok ⟨hdigit, hne, hfits.1, hlead, hfits.2, hzero⟩
  | stringConstant text => exact ⟨text_ok_iff.mpr hfits, rfl⟩
  | boolConstant flag => cases flag <;> exact ⟨u8_ok_iff.mpr (by decide), rfl⟩
  | voidConstant => rfl

/-- The instruction that an instruction can continue at. -/
def Instruction.target : Instruction → Option ℕ
  | .iterNextInstruction _ _ stop => some stop
  | .matchVariantInstruction _ failure => some failure
  | .jumpFalseInstruction target | .jumpInstruction target => some target
  | _ => none

theorem require_eq_empty_iff {condition : Bool} {msg : String} (h : ascii msg ≠ empty) :
    require condition msg = empty ↔ condition = true := by
  rw [require]
  split_ifs with hc
  · exact iff_of_true rfl hc
  · exact iff_of_false h hc

theorem target_lt_of_verifyInstruction {i : Instruction} {program : BytecodeProgram}
    (h : verifyInstruction i f program = empty) {tgt : ℕ} (ht : i.target = some tgt) :
    tgt < f.instructions.length := by
  cases i with
  | iterNextInstruction iter name stop | matchVariantInstruction variant failure
  | jumpFalseInstruction tgt | jumpInstruction tgt =>
    cases ht
    exact of_decide_eq_true ((require_eq_empty_iff (by decide)).mp h)
  | _ => cases ht

theorem name_ok (h : nameFits name) : Format.name.Ok name := Format.name_ok_iff.mpr h

theorem names_ok {count : Codec UInt8 ℕ} {names : List Str} (hcnt : count.Ok names.length)
    (h : ∀ name ∈ names, nameFits name) : (count.list Format.name).Ok names :=
  Codec.list_ok_iff.mpr ⟨hcnt, fun name hname => name_ok (h name hname)⟩

theorem u8_ok {n : ℕ} (h : n ≤ 255) : u8.Ok n := u8_ok_iff.mpr (by omega)

theorem u16_ok {n : ℕ} (h : n ≤ 65535) : u16.Ok n := u16_ok_iff.mpr (by omega)

theorem instruction_ok {i : Instruction} (hemit : i.Emitted) (hfits : i.Fits)
    (htgt : ∀ tgt, i.target = some tgt → u32.Ok tgt) : instruction.Ok i.canonical := by
  refine ⟨opcode_ok _, ?_⟩
  cases i with
  | constInstruction value => exact ⟨constant_ok hemit hfits, rfl⟩
  | loadInstruction name | storeInstruction name | iterInitInstruction name
  | fieldGetInstruction name => exact ⟨name_ok hfits, rfl⟩
  | popInstruction => rfl
  | unaryInstruction op =>
    obtain ⟨code, hcode, rfl⟩ := hemit
    have hcode' := unaryCode_unaryOperator hcode
    refine ⟨u8_ok ?_, ?_⟩
    · show unaryCode (unaryOperator code) ≤ 255
      omega
    · show toUnary (unaryCode (unaryOperator code)) = _
      rw [hcode', toUnary, if_pos hcode]
      rfl
  | binaryInstruction op =>
    obtain ⟨code, hcode, rfl⟩ := hemit
    have hcode' := binaryCode_binaryOperator hcode
    refine ⟨u8_ok ?_, ?_⟩
    · show binaryCode (binaryOperator code) ≤ 255
      omega
    · show toBinary (binaryCode (binaryOperator code)) = _
      rw [hcode', toBinary, if_pos hcode]
      rfl
  | makeRangeInstruction => rfl
  | makeArrayInstruction count => exact ⟨u16_ok hfits, rfl⟩
  | indexGetInstruction => rfl
  | interpolateInstruction parts =>
    exact ⟨Codec.list_ok_iff.mpr
      ⟨u16_ok hfits.1, fun part hpart => text_ok_iff.mpr (hfits.2 part hpart)⟩, rfl⟩
  | iterNextInstruction iter name stop =>
    exact ⟨⟨name_ok hfits.1, name_ok hfits.2, htgt stop rfl⟩, rfl⟩
  | makeRecordInstruction name fields =>
    exact ⟨⟨name_ok hfits.1, names_ok (u16_ok hfits.2.1) hfits.2.2⟩, rfl⟩
  | makeVariantInstruction enumName variant count =>
    exact ⟨⟨name_ok hfits.1, name_ok hfits.2.1, u16_ok hfits.2.2⟩, rfl⟩
  | matchVariantInstruction variant failure => exact ⟨⟨name_ok hfits, htgt failure rfl⟩, rfl⟩
  | matchFailInstruction => rfl
  | callInstruction name arity | awaitCallInstruction name arity =>
    exact ⟨⟨name_ok hfits.1, u8_ok hfits.2⟩, rfl⟩
  | callValueInstruction arity | awaitValueInstruction arity => exact ⟨u8_ok hfits, rfl⟩
  | jumpFalseInstruction tgt | jumpInstruction tgt => exact ⟨htgt tgt rfl, rfl⟩
  | pendingEndJumpInstruction => exact hemit.elim
  | returnInstruction => rfl

theorem functionCode_ok {program : BytecodeProgram} (hemit : ∀ i ∈ f.instructions, i.Emitted)
    (hfits : f.Fits) (hok : FunctionOk program f) : functionCode.Ok f.canonical := by
  have hcnt := hfits.instructionCount
  have hlen : f.canonical.instructions.length = f.instructions.length := length_map _
  have hins : ∀ i ∈ f.canonical.instructions, instruction.Ok i := by
    intro i hi
    obtain ⟨j, hj, rfl⟩ := mem_map.mp hi
    refine instruction_ok (hemit j hj) (hfits.instructions j hj) fun tgt ht => ?_
    have := target_lt_of_verifyInstruction (hok.instructions j hj) ht
    exact u32_ok_iff.mpr (by omega)
  have hflg : flags f.canonical < 256 := by
    rw [flags]
    split_ifs <;> decide
  refine ⟨⟨name_ok hfits.name, u8_ok_iff.mpr hflg,
    names_ok (u8_ok hfits.parameterCount) hfits.parameters, Codec.list_ok_iff.mpr
      ⟨u32_ok_iff.mpr (show f.canonical.instructions.length < _ by omega), hins⟩⟩, ?_⟩
  show toFunction (f.name, flags f, f.parameters, f.canonical.instructions) = _
  have heff := hok.effect
  have hflag : flags f ≤ 2 ∧ decide (flags f = 1) = f.isPure ∧
      decide (flags f = 2) = f.isAsync := by
    rw [flags]
    cases hp : f.isPure <;> cases ha : f.isAsync <;> simp_all
  rw [toFunction, if_pos ⟨hflag.1, by omega⟩, hflag.2.1, hflag.2.2]
  rfl

/-! ## The verifier does not see the canonical form -/

/-- The lookup goes on after a match, so the last function of the name is found. -/
theorem bytecodeFunction_eq_last? {program : BytecodeProgram} :
    bytecodeFunction program name = Keyed.last? FunctionCode.name program.functions name := by
  rw [bytecodeFunction]
  induction program.functions using reverseRecOn with
  | nil => rfl
  | append_singleton functions g ih =>
    rw [foldl_append, Keyed.last?_append, ← ih]
    rfl

theorem mem_of_bytecodeFunction {program : BytecodeProgram}
    (h : bytecodeFunction program name = some f) : f ∈ program.functions ∧ f.name = name := by
  rw [bytecodeFunction_eq_last?] at h
  exact ⟨mem_reverse.mp (mem_of_find?_eq_some h), by simpa using find?_some h⟩

theorem bytecodeFunction_eq_none_iff {program : BytecodeProgram} :
    bytecodeFunction program name = none ↔ ∀ f ∈ program.functions, f.name ≠ name := by
  rw [bytecodeFunction_eq_last?, Keyed.last?, find?_eq_none]
  simp

/-- With different names, the lookup finds the function of the name. -/
theorem bytecodeFunction_eq_some_iff {program : BytecodeProgram}
    (hnames : (program.functions.map FunctionCode.name).Nodup) :
    bytecodeFunction program name = some f ↔ f ∈ program.functions ∧ f.name = name := by
  refine ⟨mem_of_bytecodeFunction, ?_⟩
  rintro ⟨hmem, rfl⟩
  rw [bytecodeFunction_eq_last?]
  exact Keyed.last?_of_mem _ hnames hmem

/-- A program with its functions in another order and in canonical form. -/
structure Reordered (program other : BytecodeProgram) : Prop where
  names : (program.functions.map FunctionCode.name).Nodup
  perm : other.functions.Perm (program.functions.map canonical)

namespace Reordered

variable {program other : BytecodeProgram}

theorem names_other (h : Reordered program other) :
    (other.functions.map FunctionCode.name).Nodup := by
  have hmap : (program.functions.map canonical).map name = program.functions.map name := by
    rw [map_map]
    rfl
  have hperm := h.perm.map name
  rw [hmap] at hperm
  exact hperm.nodup_iff.mpr h.names

theorem bytecodeFunction_eq (h : Reordered program other) (name : Str) :
    bytecodeFunction other name = (bytecodeFunction program name).map FunctionCode.canonical := by
  cases hlook : bytecodeFunction program name with
  | none =>
    rw [Option.map_none, bytecodeFunction_eq_none_iff]
    intro f hf
    obtain ⟨g, hg, rfl⟩ := mem_map.mp (h.perm.mem_iff.mp hf)
    exact bytecodeFunction_eq_none_iff.mp hlook g hg
  | some f =>
    obtain ⟨hf, hname⟩ := mem_of_bytecodeFunction hlook
    rw [Option.map_some, bytecodeFunction_eq_some_iff h.names_other]
    exact ⟨h.perm.mem_iff.mpr (mem_map_of_mem hf), hname⟩

theorem length_instructions (f : FunctionCode) :
    f.canonical.instructions.length = f.instructions.length := length_map _

theorem verifyInstruction_eq (h : Reordered program other) (f : FunctionCode) (i : Instruction) :
    verifyInstruction i.canonical f.canonical other = verifyInstruction i f program := by
  have hlook := h.bytecodeFunction_eq
  cases i with
  | callInstruction name arity =>
    simp only [Instruction.canonical, verifyInstruction, verifyCall, hlook, Option.isSome_map,
      Option.map_map, Option.any_map]
    rfl
  | awaitCallInstruction name arity =>
    simp only [Instruction.canonical, verifyInstruction, verifyAwaitCall, hlook, Option.map_map,
      Option.any_map]
    rfl
  | _ => simp only [Instruction.canonical, verifyInstruction, length_instructions] <;> rfl

theorem functionOk (h : Reordered program other) (hok : FunctionOk program f) :
    FunctionOk other f.canonical where
  effect := hok.effect
  named := hok.named
  parameters := hok.parameters
  nonempty hnil := hok.nonempty (map_eq_nil_iff.mp hnil)
  instructions i hi := by
    obtain ⟨j, hj, rfl⟩ := mem_map.mp hi
    rw [h.verifyInstruction_eq]
    exact hok.instructions j hj
  returns := mem_map.mpr ⟨_, hok.returns, rfl⟩

theorem totalInstructions_eq (h : Reordered program other) :
    totalInstructions other.functions = totalInstructions program.functions := by
  rw [totalInstructions, totalInstructions, (h.perm.map _).sum_eq, map_map]
  congr 2
  funext f
  exact length_instructions f

theorem programOk (h : Reordered program other) (hok : ProgramOk program) : ProgramOk other where
  main := by
    obtain ⟨main, hmain, hparams⟩ := hok.main
    refine ⟨main.canonical, ?_, hparams⟩
    rw [h.bytecodeFunction_eq, hmain]
    rfl
  total := by
    rw [h.totalInstructions_eq]
    exact hok.total
  functions f hf := by
    obtain ⟨g, hg, rfl⟩ := mem_map.mp (h.perm.mem_iff.mp hf)
    exact h.functionOk (hok.functions g hg)

end Reordered

/-! ## Encoding, then decoding -/

theorem functionTable_ok {program : BytecodeProgram} (hemit : program.Emitted)
    (hfits : program.Fits) (hok : ProgramOk program) : functionTable.Ok
      ((sortFunctions program.functions).map canonical) := by
  have hperm := sortFunctions_perm program.functions
  have hreo : Reordered program
      ⟨(sortFunctions program.functions).map canonical⟩ := ⟨hemit.names, hperm.map _⟩
  have hlen : ((sortFunctions program.functions).map canonical).length ≤ 4096 := by
    rw [length_map, hperm.length_eq]
    exact hfits.functionCount
  have htotal : totalInstructions ((sortFunctions program.functions).map canonical) ≤ 4000000 :=
    hreo.totalInstructions_eq.trans_le hok.total
  have hvers : u16.Ok 9 := u16_ok (by decide)
  have hcnt := u16_ok (hlen.trans (show 4096 ≤ 65535 by decide))
  refine ⟨⟨rfl, hvers, Codec.list_ok_iff.mpr ⟨hcnt, fun f hf => ?_⟩⟩, ?_⟩
  · obtain ⟨g, hg, rfl⟩ := mem_map.mp hf
    have hmem := hperm.mem_iff.mp hg
    exact functionCode_ok (hemit.instructions g hmem) (hfits.functions g hmem)
      (hok.functions g hmem)
  · exact if_pos ⟨rfl, rfl, hlen, htotal⟩

/-- An emitted program within the limits that the verifier accepts is encoded, and the decoder
accepts the artifact and returns the program with its functions sorted by name and its decimal
constants in coefficient and exponent form. -/
theorem decodeBytecode_of_emitted {program : BytecodeProgram} (hemit : program.Emitted)
    (hfits : program.Fits) (hverified : verifyBytecodeProgram program = empty) :
    ∃ (data : Bytes) (functions : List FunctionCode), serializeBytecode program = some data ∧
      functions.Perm program.functions ∧ functions.Pairwise (fun f g => f.name < g.name) ∧
      decodeBytecode data = .ok ⟨functions.map FunctionCode.canonical⟩ := by
  have hok := verifyBytecodeProgram_eq_empty_iff.mp hverified
  have hperm := sortFunctions_perm program.functions
  have hsort := sorted_sortFunctions hemit.names
  have htable := functionTable_ok hemit hfits hok
  have hser := serializeBytecode_eq htable
  have hprs := functionTable.parse_print [] htable
  rw [append_nil] at hprs
  refine ⟨_, sortFunctions program.functions, hser, hperm, hsort, ?_⟩
  rw [decodeBytecode_eq_ok_iff, readProgram_eq_ok_iff]
  refine ⟨⟨hfits.artifact _ hser, hprs, pairwise_map.mpr hsort⟩, ?_⟩
  exact Reordered.programOk ⟨hemit.names, hperm.map _⟩ hok

/-- Two functions out of order, with a decimal literal and a call. -/
def decimalProgram : BytecodeProgram :=
  ⟨[⟨ascii "main", [], false, false,
      [.callInstruction (ascii "half") 0, .popInstruction, .constInstruction .voidConstant,
        .returnInstruction]⟩,
    ⟨ascii "half", [], true, false,
      [.constInstruction (.decimalConstant (ascii "0.50")), .returnInstruction]⟩]⟩

theorem decodeBytecode_decimalProgram :
    ∃ (data : Bytes) (functions : List FunctionCode), serializeBytecode decimalProgram = some data ∧
      functions.Perm decimalProgram.functions ∧ functions.Pairwise (fun f g => f.name < g.name) ∧
      decodeBytecode data = .ok ⟨functions.map canonical⟩ := by
  have hser : (serializeBytecode decimalProgram).map length = some 58 := by decide +kernel
  refine decodeBytecode_of_emitted ⟨by decide, by decide +kernel⟩ ⟨by decide, ?_, ?_⟩
    (by decide +kernel)
  · intro f hf
    rcases mem_cons.mp hf with rfl | hf
    · exact ⟨by decide, by decide, by decide, by decide, by decide⟩
    · rcases mem_singleton.mp hf with rfl
      exact ⟨by decide, by decide, by decide, by decide, by decide +kernel⟩
  · intro data hdata
    rw [hdata, Option.map_some, Option.some.injEq] at hser
    omega

end Panackelty.Bytecode
