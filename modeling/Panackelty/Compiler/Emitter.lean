import Panackelty.Bytecode.Program
import Panackelty.Compiler.ModuleBindings

/-!
# `compiler/emitter.panack`: the instructions of a program

Every construct emits the code of its parts at the offsets where they will stand, and counts the
temporaries that it has used.  So a construct is a function of emitters, and the emitter of a tree
is put together from them.  Only the instructions are kept here: the source positions and the probes
of `compile_program_with_sources` are another output of the same walk.

* `Expr`, `Statement`, `Block`, `MatchArm`: the checked trees.
* `Emitter`: code at a temporary and an offset; `emitWhile`, `emitCall`, `emitMatch`, …: the
  constructs.
* `emitExpression`, `emitBlock`: the emitters of trees; `compileProgram`.
-/

namespace Panackelty.Compiler

open Bytecode Str

/-! ## Trees -/

mutual

/-- `Expr`. -/
inductive Expr where
  | located (span : SourceSpan) (value : Expr)
  | nat (value : ℕ)
  | decimal (text : Str)
  | string (text : Str)
  | bool (value : Bool)
  | name (name : Str)
  | function (name : Str)
  | array (items : List Expr)
  | unary (operator : Str) (operand : Expr)
  | binary (operator : Str) (left right : Expr)
  | call (name : Str) (arguments : List Expr)
  | ownedCall (target : Expr) (name : Str) (arguments : List Expr)
  | dotCall (target : Expr) (name : Str) (arguments : List Expr)
  | field (target : Expr) (field : Str)
  | index (target index : Expr)
  | ifThen (condition : Expr) (yes no : Block) (hasElse : Bool)
  | block (block : Block)
  | matchOn (subject : Expr) (arms : List MatchArm)

/-- `Statement`. -/
inductive Statement where
  | binding (name : Str) (value : Expr)
  | assignment (name : Str) (value : Expr)
  | expression (value : Expr)
  | whileLoop (condition : Expr) (body : Block)
  | forLoop (name : Str) (iterable : Expr) (body : Block)

/-- `Block`. -/
inductive Block where
  | noValue (statements : List Statement)
  | tailValue (statements : List Statement) (value : Expr)

/-- `MatchArm`. -/
inductive MatchArm where
  | arm (variant : Str) (bindings : List Str) (body : Expr)

end

/-- The declarations that the emitter reads. -/
inductive Declaration where
  | record (name : Str) (fields : List Str)
  | enum (name : Str) (variants : List Str)
  | function (name : Str) (parameters : List Str) (isPure isAsync : Bool) (body : Block)

/-- `record_type`: the fields of the last record of that name. -/
def recordType (program : List Declaration) (name : Str) : Option (List Str) :=
  program.reverse.findSome? fun
    | .record declared fields => if declared = name then some fields else none
    | _ => none

/-- `variant_type`: the enum of the last variant of that name. -/
def variantType (program : List Declaration) (name : Str) : Option Str :=
  program.reverse.findSome? fun
    | .enum enumName variants => if name ∈ variants then some enumName else none
    | _ => none

/-! ## Literals -/

/-- The text of bytes that were cut from a text at ASCII characters. -/
def cutText (bytes : Bytes) : Str := if h : utf8 bytes = true then ⟨bytes, h⟩ else .empty

/-- The byte that an escape stands for. -/
def decodedEscape (escape : UInt8) : UInt8 :=
  if escape = 110 then 10 else if escape = 114 then 13 else if escape = 116 then 9
  else if escape = 98 then 8 else if escape = 102 then 12 else escape

/-- The loop of `decode_string_literal`. -/
def decodeLoop : Bytes → Bytes
  | [] => []
  | [b] => [b]
  | b :: c :: rest =>
    if b = 92 then decodedEscape c :: decodeLoop rest else b :: decodeLoop (c :: rest)

/-- `decode_string_literal`, between the quotes. -/
def decodeStringLiteral (text : Str) : Bytes := decodeLoop (text.bytes.drop 1).dropLast

/-- `interpolation_name_start`. -/
def interpolationNameStart (b : UInt8) : Bool :=
  (65 ≤ b && b ≤ 90) || (97 ≤ b && b ≤ 122) || b == 95

/-- `interpolation_name_part`. -/
def interpolationNamePart (b : UInt8) : Bool := interpolationNameStart b || (48 ≤ b && b ≤ 57)

/-- The loop of `split_interpolated_string` with the part since the last variable: the parts with
the variables after them, and the last part.  Every round passes a character. -/
def splitLoop : ℕ → Bytes → Bytes → List (Bytes × Bytes) × Bytes
  | 0, rest, part => ([], part ++ rest)
  | fuel + 1, b :: c :: after, part =>
    if b = 36 ∧ c = 123 then
      let name := after.takeWhile interpolationNamePart
      let stop := after.drop name.length
      if name.head?.any interpolationNameStart ∧ stop.head? = some 125 then
        let (found, last) := splitLoop fuel (stop.drop 1) []
        ((part, name) :: found, last)
      else
        let skipped := stop.takeWhile (· != 125)
        splitLoop fuel (stop.drop skipped.length) (part ++ b :: c :: name ++ skipped)
    else splitLoop fuel (c :: after) (part ++ [b])
  | _ + 1, rest, part => ([], part ++ rest)

/-- `InterpolatedString`. -/
structure InterpolatedString where
  parts : List Str
  names : List Str

/-- `split_interpolated_string`. -/
def splitInterpolatedString (text : Bytes) : InterpolatedString :=
  let (found, last) := splitLoop text.length text []
  if found.isEmpty then ⟨[], []⟩
  else ⟨found.map (fun p => cutText p.1) ++ [cutText last], found.map fun p => cutText p.2⟩

/-! ## Emitters -/

/-- `EmittedCode`. -/
structure EmittedCode where
  instructions : List Instruction
  nextTemporary : ℕ

/-- The code from a temporary on at an offset. -/
abbrev Emitter := ℕ → ℕ → EmittedCode

/-- A name that the emitter makes up. -/
def temporaryName (label : String) (temporary : ℕ) : Str := ascii (label ++ toString temporary)

/-- The code of one instruction. -/
def emitOne (instruction : Instruction) : Emitter := fun temporary _ => ⟨[instruction], temporary⟩

/-- `emit_expression_list`; also the loop of `emit_block` over its statements. -/
def emitExpressionList : List Emitter → Emitter
  | [] => fun temporary _ => ⟨[], temporary⟩
  | emit :: rest => fun temporary offset =>
    let code := emit temporary offset
    let others := emitExpressionList rest code.nextTemporary (offset + code.instructions.length)
    ⟨code.instructions ++ others.instructions, others.nextTemporary⟩

/-- The code of some parts and the instruction that uses them. -/
def emitThen (parts : List Emitter) (instruction : Instruction) : Emitter :=
  fun temporary offset =>
    let code := emitExpressionList parts temporary offset
    ⟨code.instructions ++ [instruction], code.nextTemporary⟩

/-- `emit_string_expression`. -/
def emitStringExpression (tokenText : Str) : Emitter := fun temporary _ =>
  let text := decodeStringLiteral tokenText
  let interpolation := splitInterpolatedString text
  if interpolation.names.isEmpty then
    ⟨[.constInstruction (.stringConstant (cutText text))], temporary⟩
  else
    ⟨interpolation.names.map .loadInstruction ++ [.interpolateInstruction interpolation.parts],
      temporary⟩

/-- The instruction of an awaited call. -/
def awaitedInstruction : Instruction → Instruction
  | .callInstruction name arity => .awaitCallInstruction name arity
  | .callValueInstruction arity => .awaitValueInstruction arity
  | instruction => instruction

/-- The terminal invocation is awaited. -/
def emitAwait (operand : Emitter) : Emitter := fun temporary offset =>
  let code := operand temporary offset
  ⟨code.instructions.dropLast ++ (code.instructions.getLast?.map awaitedInstruction).toList,
    code.nextTemporary⟩

/-- The `while` statement. -/
def emitWhile (condition body : Emitter) : Emitter := fun temporary offset =>
  let conditionCode := condition temporary offset
  let jumpIndex := offset + conditionCode.instructions.length
  let bodyCode := body conditionCode.nextTemporary (jumpIndex + 1)
  let stop := jumpIndex + 1 + bodyCode.instructions.length + 2
  ⟨conditionCode.instructions ++ [.jumpFalseInstruction stop] ++
    (bodyCode.instructions ++ [.popInstruction] ++ [.jumpInstruction offset]),
      bodyCode.nextTemporary⟩

/-- A loop over an iterator, from the code of a round on. -/
def emitLoop (offset : ℕ) (iterator item : Str) (round : List Instruction) : List Instruction :=
  [.iterNextInstruction iterator item (offset + 1 + round.length + 1)] ++ round ++
    [.jumpInstruction offset]

/-- The `for` statement. -/
def emitFor (name : Str) (iterable body : Emitter) : Emitter := fun temporary offset =>
  let iterator := temporaryName "$iter" temporary
  let iterableCode := iterable (temporary + 1) offset
  let loopStart := offset + iterableCode.instructions.length + 1
  let bodyCode := body iterableCode.nextTemporary (loopStart + 1)
  ⟨iterableCode.instructions ++ [.iterInitInstruction iterator] ++
    emitLoop loopStart iterator name (bodyCode.instructions ++ [.popInstruction]),
    bodyCode.nextTemporary⟩

/-- `emit_short_circuit` for `&&`. -/
def emitAnd (left right : Emitter) : Emitter := fun temporary offset =>
  let leftCode := left temporary offset
  let branch := offset + leftCode.instructions.length
  let rightCode := right leftCode.nextTemporary (branch + 1)
  let falseTarget := branch + 1 + rightCode.instructions.length + 1
  ⟨leftCode.instructions ++ [.jumpFalseInstruction falseTarget] ++
    (rightCode.instructions ++ [.jumpInstruction (falseTarget + 1)]) ++
      [.constInstruction (.boolConstant false)], rightCode.nextTemporary⟩

/-- `emit_short_circuit` for `||`. -/
def emitOr (left right : Emitter) : Emitter := fun temporary offset =>
  let leftCode := left temporary offset
  let branch := offset + leftCode.instructions.length
  let rightTarget := branch + 1 + 2
  let rightCode := right leftCode.nextTemporary rightTarget
  ⟨leftCode.instructions ++ [.jumpFalseInstruction rightTarget] ++
    ([.constInstruction (.boolConstant true)] ++
      [.jumpInstruction (rightTarget + rightCode.instructions.length)]) ++ rightCode.instructions,
    rightCode.nextTemporary⟩

/-- The `if` expression. -/
def emitIf (condition yes no : Emitter) (hasElse : Bool) : Emitter := fun temporary offset =>
  let conditionCode := condition temporary offset
  let branch := offset + conditionCode.instructions.length
  let yesCode := yes conditionCode.nextTemporary (branch + 1)
  if hasElse then
    let noStart := branch + 1 + yesCode.instructions.length + 1
    let noCode := no yesCode.nextTemporary noStart
    ⟨conditionCode.instructions ++ [.jumpFalseInstruction noStart] ++
      (yesCode.instructions ++ [.jumpInstruction (noStart + noCode.instructions.length)]) ++
        noCode.instructions, noCode.nextTemporary⟩
  else
    let voidStart := branch + 2 + yesCode.instructions.length
    ⟨conditionCode.instructions ++ [.jumpFalseInstruction voidStart] ++
      (yesCode.instructions ++ [.popInstruction]) ++ [.constInstruction .voidConstant],
      yesCode.nextTemporary⟩

/-! ## Calls -/

/-- The `$intrinsic_map` and `$intrinsic_reduce` calls: the collection, the initial value or an
empty array, and the callback are stored before the loop. -/
def emitIntrinsicLoop (reduce : Bool) (collection initial callback : Emitter) : Emitter :=
  fun temporary offset =>
    let collectionName := temporaryName "$collection" temporary
    let callbackName := temporaryName "$callback" temporary
    let itemName := temporaryName "$item" temporary
    let iteratorName := temporaryName "$iterator" temporary
    let accumulatorName := temporaryName "$accumulator" temporary
    let start := if reduce then initial else emitOne (.makeArrayInstruction 0)
    let stored := emitExpressionList [emitThen [collection] (.storeInstruction collectionName),
        emitThen [start] (.storeInstruction accumulatorName),
        emitThen [callback] (.storeInstruction callbackName)] (temporary + 1) offset
    let before := stored.instructions ++
      [.loadInstruction collectionName, .iterInitInstruction iteratorName]
    let round := if reduce then
      [.loadInstruction callbackName, .loadInstruction accumulatorName, .loadInstruction itemName,
        .callValueInstruction 2, .storeInstruction accumulatorName]
    else
      [.loadInstruction accumulatorName, .loadInstruction callbackName, .loadInstruction itemName,
        .callValueInstruction 1, .callInstruction (ascii "append") 2,
        .storeInstruction accumulatorName]
    ⟨before ++ emitLoop (offset + before.length) iteratorName itemName round ++
      [.loadInstruction accumulatorName], stored.nextTemporary⟩

/-- The names that the host gives to transport calls. -/
def hostCallName (name : Str) : Str :=
  if name ∈ ["http_transport_exchange", "tcp_exchange", "tcp_serve", "tcp_serve_stream",
    "tcp_server_read_chunk"].map ascii then ascii "$" ++ name else name

/-- The instruction of a call of a record, a variant or a function. -/
def callInstructionOf (program : List Declaration) (name : Str) (arity : ℕ) : Instruction :=
  match recordType program name with
  | some fields => .makeRecordInstruction name fields
  | none =>
    match variantType program name with
    | some enumName => .makeVariantInstruction enumName name arity
    | none => .callInstruction (hostCallName name) arity

/-- The name of the intrinsic call. -/
def intrinsicCall : Str := ascii "$intrinsic_call"

/-- The name of the intrinsic `map`. -/
def intrinsicMap : Str := ascii "$intrinsic_map"

/-- The name of the intrinsic `reduce`. -/
def intrinsicReduce : Str := ascii "$intrinsic_reduce"

/-- `emit_call`; an argument that is missing emits nothing. -/
def emitCall (program : List Declaration) (name : Str) (arguments : List Emitter) : Emitter :=
  if name = intrinsicCall then emitThen arguments (.callValueInstruction (arguments.length - 1))
  else if name = intrinsicMap ∨ name = intrinsicReduce then
    emitIntrinsicLoop (decide (name = intrinsicReduce)) (arguments.getD 0 (emitExpressionList []))
      (arguments.getD 1 (emitExpressionList []))
      (arguments.getD (arguments.length - 1) (emitExpressionList []))
  else emitThen arguments (callInstructionOf program name arguments.length)

/-! ## Matches -/

/-- `resolve_pending_jumps`. -/
def resolvePendingJumps (instructions : List Instruction) (target : ℕ) : List Instruction :=
  instructions.map fun
    | .pendingEndJumpInstruction => .jumpInstruction target
    | instruction => instruction

/-- An arm with the emitter of its body. -/
structure ArmCode where
  variant : Str
  bindings : List Str
  body : Emitter

/-- A round of the loop of `emit_match`. -/
def emitArm (subject : Str) (arm : ArmCode) : Emitter := fun temporary offset =>
  let bodyOffset := offset + 2 + arm.bindings.length
  let bodyCode := arm.body temporary bodyOffset
  let failure := bodyOffset + bodyCode.instructions.length + 1
  ⟨[.loadInstruction subject, .matchVariantInstruction arm.variant failure] ++
    arm.bindings.reverse.map .storeInstruction ++ bodyCode.instructions ++
      [.pendingEndJumpInstruction], bodyCode.nextTemporary⟩

/-- `emit_match`. -/
def emitMatch (subject : Emitter) (arms : List ArmCode) : Emitter := fun temporary offset =>
  let temporaryName := temporaryName "$match" temporary
  let code := emitThen (emitThen [subject] (.storeInstruction temporaryName) ::
    arms.map (emitArm temporaryName)) .matchFailInstruction (temporary + 1) offset
  ⟨resolvePendingJumps code.instructions (offset + code.instructions.length), code.nextTemporary⟩

/-! ## The emitters of trees -/

section Emit

variable (program : List Declaration)

mutual

/-- `emit_expression`. -/
def emitExpression : Expr → Emitter
  | .located _ value => emitExpression value
  | .nat value => emitOne (.constInstruction (.natConstant value))
  | .decimal text => emitOne (.constInstruction (.decimalConstant text))
  | .string text => emitStringExpression text
  | .bool value => emitOne (.constInstruction (.boolConstant value))
  | .name name => emitOne (.loadInstruction name)
  | .function name => emitOne (.constInstruction (.stringConstant name))
  | .array items => emitThen (emitEach items) (.makeArrayInstruction items.length)
  | .unary operator operand =>
    if operator = ascii "await" then emitAwait (emitExpression operand)
    else emitThen [emitExpression operand] (.unaryInstruction operator)
  | .binary operator left right =>
    if operator = ascii "&&" then emitAnd (emitExpression left) (emitExpression right)
    else if operator = ascii "||" then emitOr (emitExpression left) (emitExpression right)
    else emitThen [emitExpression left, emitExpression right]
      (if operator = ascii ".." then .makeRangeInstruction else .binaryInstruction operator)
  | .ownedCall _ _ _ | .dotCall _ _ _ => emitOne .matchFailInstruction
  | .call name arguments => emitCall program name (emitEach arguments)
  | .field target field => emitThen [emitExpression target] (.fieldGetInstruction field)
  | .index target index =>
      emitThen [emitExpression target, emitExpression index] .indexGetInstruction
  | .ifThen condition yes no hasElse =>
    emitIf (emitExpression condition) (emitBlock yes) (emitBlock no) hasElse
  | .block block => emitBlock block
  | .matchOn subject arms => emitMatch (emitExpression subject) (emitArms arms)

/-- An emitter for each expression. -/
def emitEach : List Expr → List Emitter
  | [] => []
  | expression :: rest => emitExpression expression :: emitEach rest

/-- A statement of `emit_block`. -/
def emitStatement : Statement → Emitter
  | .binding name value
  | .assignment name value => emitThen [emitExpression value] (.storeInstruction name)
  | .expression value => emitThen [emitExpression value] .popInstruction
  | .whileLoop condition body => emitWhile (emitExpression condition) (emitBlock body)
  | .forLoop name iterable body => emitFor name (emitExpression iterable) (emitBlock body)

/-- An emitter for each statement. -/
def emitStatements : List Statement → List Emitter
  | [] => []
  | statement :: rest => emitStatement statement :: emitStatements rest

/-- `emit_block`. -/
def emitBlock : Block → Emitter
  | .noValue statements =>
    emitThen (emitStatements statements) (.constInstruction .voidConstant)
  | .tailValue statements value =>
    emitExpressionList [emitExpressionList (emitStatements statements), emitExpression value]

/-- The arms of a match. -/
def emitArms : List MatchArm → List ArmCode
  | [] => []
  | .arm variant bindings body :: rest => ⟨variant, bindings, emitExpression body⟩ :: emitArms rest

end

end Emit

/-! ## Programs -/

/-- The name that an instruction calls, or the empty one. -/
def coreCallName : Instruction → Str
  | .callInstruction name _ | .awaitCallInstruction name _ => name
  | _ => .empty

/-- A name of the core library. -/
def isCore (name : Str) : Bool := (asciiBytes "$core_").isPrefixOf name.bytes

/-- One pass of the loop of `used_core_functions`. -/
def usedRound (functions : List FunctionCode) (used : List Str) : List Str :=
  functions.foldl (fun used function =>
    if !isCore function.name || used.contains function.name then
      function.instructions.foldl (fun used instruction =>
        let name := coreCallName instruction
        if isCore name && !used.contains name then used ++ [name] else used) used
    else used) used

/-- The passes until nothing changes; every other pass adds a name of a call. -/
def usedLoop (functions : List FunctionCode) : ℕ → List Str → List Str
  | 0, used => used
  | fuel + 1, used =>
    let next := usedRound functions used
    if next.length = used.length then used else usedLoop functions fuel next

/-- `used_core_functions`. -/
def usedCoreFunctions (functions : List FunctionCode) : List Str :=
  usedLoop functions ((functions.flatMap (·.instructions)).length + 1) []

/-- The code of a function declaration. -/
def emitFunction (program : List Declaration) : Declaration → Option FunctionCode
  | .function name parameters isPure isAsync body =>
    some ⟨name, parameters, isPure, isAsync,
      (emitBlock program body 0 0).instructions ++ [.returnInstruction]⟩
  | _ => none

/-- `compile_program`. -/
def compileProgram (program : List Declaration) : BytecodeProgram :=
  let functions := program.filterMap (emitFunction program)
  let used := usedCoreFunctions functions
  ⟨functions.filter fun function => !isCore function.name || used.contains function.name⟩

end Panackelty.Compiler
