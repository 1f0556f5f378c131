import Panackelty.Bytecode.Reading
import Panackelty.Compiler.Builtins

/-!
# `bytecode/decoder.panack`: the semantic verifier

The verifier returns the first error message, and the empty text for a program without one.

* `ProgramOk`: what a program without an error satisfies.
* `verifyBytecodeProgram_eq_empty_iff`: the verifier finds no error exactly in these programs.
* `decodeBytecode_eq_ok_iff`: what the whole decoder accepts.
-/

namespace Panackelty.Bytecode

open Compiler Str List

variable {program : BytecodeProgram}

/-! ## Builtins -/

/-- `builtin_exists`. -/
def builtinExists (name : Str) : Bool :=
  !isOneOf [.tcpExchange, .tcpServe, .tcpServeStream, .tcpServerReadChunk, .httpTransportExchange]
    name &&
  (isOneOf [.dollarTcpExchange, .dollarHttpTransportExchange, .dollarTcpServe,
    .dollarTcpServeStream, .dollarTcpServerReadChunk] name || isBuiltin name)

/-- `builtin_is_pure`. -/
def builtinIsPure (name : Str) : Bool :=
  !isOneOf [.dollarTcpExchange, .dollarHttpTransportExchange, .dollarTcpServe,
    .dollarTcpServeStream, .dollarTcpServerReadChunk] name && !isImpureBuiltin name

/-- The names that `verify_instruction` and `verify_await_call` take for async services. -/
def isAsyncService (name : Str) : Bool :=
  isOneOf [.asyncFakeRead, .dollarTcpExchange, .dollarHttpTransportExchange, .dollarTcpServe,
    .dollarTcpServeStream, .dollarTcpServerReadChunk] name

/-! ## The verifier -/

/-- `bytecode_function`: the last function of the name. -/
def bytecodeFunction (program : BytecodeProgram) (name : Str) : Option FunctionCode :=
  program.functions.foldl
    (fun result candidate => if candidate.name = name then some candidate else result) none

/-- The loop of `duplicate_names`. -/
def duplicateLoop : List Str → (seen : List Str) → (duplicate : Bool) → Bool
  | [], _, duplicate => duplicate
  | name :: names, seen, duplicate =>
    if seen.contains name then duplicateLoop names seen true
    else duplicateLoop names (name :: seen) duplicate

/-- `duplicate_names`. -/
def duplicateNames (names : List Str) : Bool := duplicateLoop names [] false

/-- The branch of `verify_instruction` for calls. -/
def verifyCall (name : Str) (arity : ℕ) (function : FunctionCode) (program : BytecodeProgram) :
    Str :=
  let target := bytecodeFunction program name
  if !target.isSome && !builtinExists name then
    ascii "bytecode calls unknown function " ++ name
  else
    let expected := if builtinExists name then builtinArity name
      else (target.map fun f => f.parameters.length).getD 0
    let targetPure := if builtinExists name then builtinIsPure name else target.any (·.isPure)
    if (!builtinExists name && target.any (·.isAsync)) || isAsyncService name then
      ascii "ordinary call cannot enter async function"
    else if function.isAsync && !targetPure then
      ascii "async function cannot call blocking function"
    else if arity ≠ expected then
      ascii "bytecode call to " ++ name ++ ascii " has invalid arity"
    else if function.isPure && !targetPure then
      ascii "pure bytecode function calls impure function " ++ name
    else empty

/-- `verify_await_call`. -/
def verifyAwaitCall (name : Str) (arity : ℕ) (function : FunctionCode)
    (program : BytecodeProgram) : Str :=
  let target := bytecodeFunction program name
  if !function.isAsync then ascii "await requires async function"
  else if isAsyncService name then
    if arity = builtinArity name then empty else ascii "async service arity mismatch"
  else if builtinExists name || !target.any (·.isAsync) then
    ascii "await target must be async"
  else if arity ≠ (target.map fun f => f.parameters.length).getD 0 then
    ascii "async call arity mismatch"
  else empty

/-- The empty message where a condition holds. -/
def require (condition : Bool) (message : String) : Str :=
  if condition then empty else ascii message

/-- `verify_instruction`. -/
def verifyInstruction (instruction : Instruction) (function : FunctionCode)
    (program : BytecodeProgram) : Str :=
  let count := function.instructions.length
  match instruction with
  | .unaryInstruction operator =>
    require (operator == ascii "-" || operator == ascii "!") "invalid UNARY operand"
  | .interpolateInstruction parts => require (0 < parts.length) "invalid INTERPOLATE operand"
  | .iterNextInstruction _ _ stop => require (stop < count) "invalid ITER_NEXT operand"
  | .matchVariantInstruction _ failure => require (failure < count) "invalid MATCH_VARIANT operand"
  | .callInstruction name arity => verifyCall name arity function program
  | .awaitCallInstruction name arity => verifyAwaitCall name arity function program
  | .awaitValueInstruction _ => require function.isAsync "await requires async function"
  | .jumpFalseInstruction target
  | .jumpInstruction target => require (target < count) "invalid jump target"
  | .pendingEndJumpInstruction => ascii "unresolved bytecode jump"
  | _ => empty

/-- A return. -/
def isReturn : Instruction → Bool
  | .returnInstruction => true
  | _ => false

/-- The instruction loop of `verify_function`. -/
def instructionLoop (function : FunctionCode) (program : BytecodeProgram) :
    List Instruction → (message : Str) → (hasReturn : Bool) → Str × Bool
  | [], message, hasReturn => (message, hasReturn)
  | i :: instructions, message, hasReturn =>
    instructionLoop function program instructions
      (if message.len = 0 then verifyInstruction i function program else message)
      (isReturn i || hasReturn)

/-- `verify_function`. -/
def verifyFunction (function : FunctionCode) (program : BytecodeProgram) : Str :=
  if (function.isPure && function.isAsync) || function.name.len == 0 ||
      duplicateNames function.parameters then
    ascii "invalid function signature"
  else if function.instructions.length = 0 then ascii "bytecode function is empty"
  else
    let verified := instructionLoop function program function.instructions empty false
    if 0 < verified.1.len then verified.1
    else if verified.2 then empty
    else ascii "bytecode function has no RETURN"

/-- The function loop of `verify_bytecode_program`. -/
def verifyLoop (program : BytecodeProgram) : List FunctionCode → (message : Str) → (total : ℕ) → Str
  | [], message, _ => message
  | function :: functions, message, total =>
    let total := total + function.instructions.length
    let message := if 4000000 < total ∧ message.len = 0 then
        ascii "bytecode exceeds total instruction limit"
      else message
    let message := if message.len = 0 then verifyFunction function program else message
    verifyLoop program functions message total

/-- `verify_bytecode_program`. -/
def verifyBytecodeProgram (program : BytecodeProgram) : Str :=
  match bytecodeFunction program (ascii "main") with
  | none => ascii "bytecode has no main function"
  | some main =>
    if 0 < main.parameters.length then ascii "bytecode main function cannot take parameters"
    else verifyLoop program program.functions empty 0

/-- `BytecodeDecodeResult`. -/
def decodeBytecode (data : Bytes) : Except Str BytecodeProgram :=
  match readProgram data with
  | .error message => .error message
  | .ok functions =>
    let program : BytecodeProgram := ⟨functions⟩
    let verification := verifyBytecodeProgram program
    if verification.len = 0 then .ok program else .error verification

/-- `round_trip_bytecode`. -/
def roundTripBytecode (data : Bytes) : Option Bytes :=
  match decodeBytecode data with
  | .ok program => serializeBytecode program
  | .error _ => some []

/-! ## What the verifier accepts -/

/-- A function without an error. -/
structure FunctionOk (program : BytecodeProgram) (f : FunctionCode) : Prop where
  effect : ¬ (f.isPure = true ∧ f.isAsync = true)
  named : f.name ≠ Str.empty
  parameters : f.parameters.Nodup
  nonempty : f.instructions ≠ []
  instructions : ∀ i ∈ f.instructions, verifyInstruction i f program = Str.empty
  returns : .returnInstruction ∈ f.instructions

/-- A program without an error. -/
structure ProgramOk (program : BytecodeProgram) : Prop where
  main : ∃ f, bytecodeFunction program (Str.ascii "main") = some f ∧ f.parameters = []
  total : Format.totalInstructions program.functions ≤ 4000000
  functions : ∀ f ∈ program.functions, FunctionOk program f

theorem duplicateLoop_eq_false_iff : ∀ {names seen : List Str} {duplicate : Bool},
    duplicateLoop names seen duplicate = false ↔
      duplicate = false ∧ names.Nodup ∧ ∀ name ∈ names, name ∉ seen
  | [], seen, duplicate => by simp [duplicateLoop]
  | name :: names, seen, duplicate => by
    rw [duplicateLoop]
    by_cases hmem : name ∈ seen
    · rw [if_pos (contains_iff_mem.mpr hmem), duplicateLoop_eq_false_iff]
      simp [hmem]
    rw [if_neg (mt contains_iff_mem.mp hmem), duplicateLoop_eq_false_iff, nodup_cons]
    simp only [List.mem_cons, not_or]
    constructor
    · rintro ⟨hdup, hnodup, hseen⟩
      refine ⟨hdup, ⟨fun h => (hseen name h).1 rfl, hnodup⟩, ?_⟩
      rintro n (rfl | hn)
      · exact hmem
      · exact (hseen n hn).2
    · rintro ⟨hdup, ⟨hname, hnodup⟩, hseen⟩
      refine ⟨hdup, hnodup, fun n hn => ⟨?_, hseen n (Or.inr hn)⟩⟩
      rintro rfl
      exact hname hn

theorem duplicateNames_eq_false_iff {names : List Str} :
    duplicateNames names = false ↔ names.Nodup := by
  simp [duplicateNames, duplicateLoop_eq_false_iff]

theorem instructionLoop_fst_eq_empty_iff {fn : FunctionCode} {program : BytecodeProgram} :
    ∀ {instrs : List Instruction} {msg : Str} {hasReturn : Bool},
      (instructionLoop fn program instrs msg hasReturn).1 = empty ↔ msg = empty ∧
          ∀ i ∈ instrs, verifyInstruction i fn program = empty
  | [], msg, hasReturn => by simp [instructionLoop]
  | i :: instrs, msg, hasReturn => by
    rw [instructionLoop, instructionLoop_fst_eq_empty_iff]
    by_cases h : msg = empty
    · simp [h, len_eq_zero_iff.mpr]
    · simp [h, len_eq_zero_iff]

theorem instructionLoop_snd {fn : FunctionCode} {program : BytecodeProgram} :
    ∀ {instrs : List Instruction} {msg : Str} {hasReturn : Bool},
      (instructionLoop fn program instrs msg hasReturn).2 = true ↔
        hasReturn = true ∨ .returnInstruction ∈ instrs
  | [], msg, hasReturn => by simp [instructionLoop]
  | i :: instrs, msg, hasReturn => by
    rw [instructionLoop, instructionLoop_snd, mem_cons, Bool.or_eq_true]
    have hi : isReturn i = true ↔ .returnInstruction = i := by cases i <;> simp [isReturn]
    rw [hi, or_assoc, or_left_comm]

theorem verifyFunction_eq_empty_iff {f : FunctionCode} :
    verifyFunction f program = empty ↔ FunctionOk program f := by
  have hloop := @instructionLoop_fst_eq_empty_iff f program f.instructions empty false
  have hreturn := @instructionLoop_snd f program f.instructions empty false
  constructor
  · intro h
    simp only [verifyFunction] at h
    split_ifs at h with hsig hemp hlen hret
    · exact absurd h (by decide)
    · exact absurd h (by decide)
    · exact absurd h (len_pos_iff.mp hlen)
    · simp only [Bool.or_eq_true, not_or, Bool.and_eq_true, beq_iff_eq, Bool.not_eq_true] at hsig
      have hmsg := by_contra fun hne => hlen (len_pos_iff.mpr hne)
      exact ⟨hsig.1.1, fun hn => hsig.1.2 (len_eq_zero_iff.mpr hn),
        duplicateNames_eq_false_iff.mp hsig.2, fun h0 => hemp (length_eq_zero_iff.mpr h0),
        (hloop.mp hmsg).2, (hreturn.mp hret).resolve_left Bool.false_ne_true⟩
    · exact absurd h (by decide)
  · intro hok
    have hsig : ¬ ((f.isPure && f.isAsync) || f.name.len == 0 || duplicateNames f.parameters) = true
        := by
      simp only [Bool.or_eq_true, not_or, Bool.and_eq_true, beq_iff_eq, Bool.not_eq_true]
      exact ⟨⟨hok.effect, mt len_eq_zero_iff.mp hok.named⟩,
        duplicateNames_eq_false_iff.mpr hok.parameters⟩
    have hmsg := hloop.mpr ⟨rfl, hok.instructions⟩
    rw [verifyFunction, if_neg hsig, if_neg (mt length_eq_zero_iff.mp hok.nonempty)]
    simp only [hmsg, hreturn.mpr (Or.inr hok.returns), if_true]
    rfl

theorem verifyLoop_ne_empty : ∀ {fns : List FunctionCode} {msg : Str} {total : ℕ}, msg ≠ empty →
      verifyLoop program fns msg total ≠ empty
  | [], _, _, h => h
  | f :: fns, msg, total, h => by
    have hlen : ¬ msg.len = 0 := mt len_eq_zero_iff.mp h
    simp only [verifyLoop, hlen, and_false, if_false]
    exact verifyLoop_ne_empty h

theorem verifyLoop_eq_empty_iff :
    ∀ {fns : List FunctionCode} {msg : Str} {total : ℕ}, total ≤ 4000000 →
      (verifyLoop program fns msg total = empty ↔ msg = empty ∧
        total + Format.totalInstructions fns ≤ 4000000 ∧
        ∀ f ∈ fns, FunctionOk program f)
  | [], msg, total, htotal => by
    simp [verifyLoop, Format.totalInstructions, htotal]
  | f :: fns, msg, total, htotal => by
    by_cases hmsg : msg = empty
    · subst hmsg
      have hemp : empty.len = 0 := rfl
      rw [verifyLoop, ByteReader.totalInstructions_cons]
      by_cases hnext : total + f.instructions.length ≤ 4000000
      · simp only [if_neg (fun h : 4000000 < _ ∧ _ => absurd h.1 (not_lt.mpr hnext)), hemp, if_true]
        rw [verifyLoop_eq_empty_iff hnext, verifyFunction_eq_empty_iff, forall_mem_cons,
          ← Nat.add_assoc]
        constructor
        · rintro ⟨hf, hrest, hfns⟩
          exact ⟨trivial, hrest, hf, hfns⟩
        · rintro ⟨_, hrest, hf, hfns⟩
          exact ⟨hf, hrest, hfns⟩
      · have herr : ¬ (ascii "bytecode exceeds total instruction limit").len = 0 :=
          mt len_eq_zero_iff.mp (by decide)
        simp only [not_le.mp hnext, hemp, and_self, if_true, herr, if_false]
        refine iff_of_false (verifyLoop_ne_empty (by decide)) ?_
        rintro ⟨_, htot, _⟩
        omega
    · exact iff_of_false (verifyLoop_ne_empty hmsg) fun h => hmsg h.1

/-- The verifier finds no error exactly in the programs that satisfy the contract. -/
theorem verifyBytecodeProgram_eq_empty_iff :
    verifyBytecodeProgram program = empty ↔ ProgramOk program := by
  rw [verifyBytecodeProgram]
  rcases hmain : bytecodeFunction program (ascii "main") with _ | main
  · refine iff_of_false (show ascii "bytecode has no main function" ≠ empty by decide) fun hok => ?_
    obtain ⟨f, hf, _⟩ := hok.main
    cases hmain.symm.trans hf
  simp only
  by_cases hparams : main.parameters = []
  · rw [if_neg (by simp [hparams]), verifyLoop_eq_empty_iff (Nat.zero_le _), Nat.zero_add]
    constructor
    · rintro ⟨_, htotal, hfns⟩
      exact ⟨⟨main, hmain, hparams⟩, htotal, hfns⟩
    · intro hok
      exact ⟨rfl, hok.total, hok.functions⟩
  · rw [if_pos (length_pos_iff.mpr hparams)]
    refine iff_of_false (by decide) fun hok => ?_
    obtain ⟨f, hf, hnone⟩ := hok.main
    cases hmain.symm.trans hf
    exact hparams hnone

/-- The decoder accepts what it can read and what the verifier finds no error in. -/
theorem decodeBytecode_eq_ok_iff {data : Bytes} : decodeBytecode data = .ok program ↔
      readProgram data = .ok program.functions ∧ ProgramOk program := by
  rw [decodeBytecode, ← verifyBytecodeProgram_eq_empty_iff, ← len_eq_zero_iff]
  rcases hread : readProgram data with msg | functions
  · simp
  simp only [Except.ok.injEq]
  constructor
  · intro h
    split_ifs at h with hver
    cases h
    exact ⟨rfl, hver⟩
  · rintro ⟨rfl, hver⟩
    exact if_pos hver

end Panackelty.Bytecode
