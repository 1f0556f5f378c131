import Panackelty.Text

/-!
# `compiler/emitter.panack`: the bytecode program

The data that the emitter builds, the codec writes and the decoder reads.
-/

namespace Panackelty.Bytecode

/-- `ConstantValue`. -/
inductive ConstantValue where
  | natConstant (value : ℕ)
  | intConstant (negative : Bool) (magnitude : ℕ)
  | decimalConstant (text : Str)
  | decimalPartsConstant (negative : Bool) (digits : List ℕ) (exponentNegative : Bool)
      (exponentMagnitude : ℕ)
  | stringConstant (text : Str)
  | boolConstant (value : Bool)
  | voidConstant
  deriving DecidableEq

/-- `Instruction`. -/
inductive Instruction where
  | constInstruction (value : ConstantValue)
  | loadInstruction (name : Str)
  | storeInstruction (name : Str)
  | popInstruction
  | unaryInstruction (operator : Str)
  | binaryInstruction (operator : Str)
  | makeRangeInstruction
  | makeArrayInstruction (count : ℕ)
  | indexGetInstruction
  | interpolateInstruction (parts : List Str)
  | iterInitInstruction (name : Str)
  | iterNextInstruction (iterator name : Str) (stop : ℕ)
  | makeRecordInstruction (name : Str) (fields : List Str)
  | fieldGetInstruction (name : Str)
  | makeVariantInstruction (enumName variant : Str) (count : ℕ)
  | matchVariantInstruction (variant : Str) (failure : ℕ)
  | matchFailInstruction
  | callInstruction (name : Str) (arity : ℕ)
  | callValueInstruction (arity : ℕ)
  | awaitCallInstruction (name : Str) (arity : ℕ)
  | awaitValueInstruction (arity : ℕ)
  | jumpFalseInstruction (target : ℕ)
  | jumpInstruction (target : ℕ)
  | pendingEndJumpInstruction
  | returnInstruction
  deriving DecidableEq

/-- `FunctionCode`. -/
structure FunctionCode where
  name : Str
  parameters : List Str
  isPure : Bool
  isAsync : Bool
  instructions : List Instruction
  deriving DecidableEq

/-- `BytecodeProgram`. -/
structure BytecodeProgram where
  functions : List FunctionCode
  deriving DecidableEq

end Panackelty.Bytecode
