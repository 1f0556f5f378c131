import Mathlib.Data.List.TakeWhile
import Panackelty.Vm.Value

/-!
# `vm/program.h`: decoded bytecode

The operands of an instruction are the arguments of its constructor.  Names are C strings, so a name
ends at its first zero byte; a string constant keeps its length and with it all of its bytes, but
the items of an interpolation are C strings. -/

namespace Panackelty.Vm

/-- A C string: the bytes before the terminating zero. -/
structure CString where
  bytes : Bytes
  noNul : (0 : UInt8) ∉ bytes
  deriving DecidableEq

namespace CString

theorem ext_bytes {s t : CString} (h : s.bytes = t.bytes) : s = t := by
  cases s
  cases t
  congr

theorem zero_notMem_takeWhile (b : Bytes) : (0 : UInt8) ∉ b.takeWhile (· ≠ 0) := by
  intro h
  simpa using List.mem_takeWhile_imp h

/-- What a buffer is as a C string. -/
def ofBytes (b : Bytes) : CString := ⟨b.takeWhile (· ≠ 0), zero_notMem_takeWhile b⟩

theorem bytes_ofBytes_iff {b : Bytes} : (ofBytes b).bytes = b ↔ (0 : UInt8) ∉ b := by
  constructor
  · intro h hmem
    have hnot := (ofBytes b).noNul
    rw [h] at hnot
    exact hnot hmem
  intro h
  refine List.takeWhile_eq_self_iff.mpr fun x hx => ?_
  simp only [ne_eq, decide_not, Bool.not_eq_eq_eq_not, Bool.not_true, decide_eq_false_iff_not]
  rintro rfl
  exact h hx

/-- The order of `strcmp`. -/
instance : LT CString := ⟨fun s t => s.bytes < t.bytes⟩

instance (s t : CString) : Decidable (s < t) := inferInstanceAs (Decidable (s.bytes < t.bytes))

theorem lt_irrefl (s : CString) : ¬ s < s := List.lt_irrefl s.bytes

theorem lt_trans {s t u : CString} (hst : s < t) (htu : t < u) : s < u := List.lt_trans hst htu

end CString

/-- A string literal of the source. -/
def CString.ascii (s : String) : CString := CString.ofBytes (Str.asciiBytes s)

/-- `Constant`. -/
inductive Constant where
  | nat (number : Big)
  | int (number : Big)
  | decimal (negative : Bool) (number : Big) (exponent : ℤ)
  | text (text : Bytes)
  | bool (boolean : Bool)
  | void
  deriving DecidableEq

/-- `Instruction`. -/
inductive Instruction where
  | const (constant : Constant)
  | load (name : CString)
  | store (name : CString)
  | pop
  | unary (code : ℕ)
  | binary (code : ℕ)
  | makeRange
  | makeArray (count : ℕ)
  | indexGet
  | interpolate (items : List CString)
  | iterInit (name : CString)
  | iterNext (name name2 : CString) (target : ℕ)
  | makeRecord (name : CString) (items : List CString)
  | fieldGet (name : CString)
  | makeVariant (name name2 : CString) (count : ℕ)
  | matchVariant (name : CString) (target : ℕ)
  | matchFail
  | call (name : CString) (arity : ℕ)
  | jumpFalse (target : ℕ)
  | jump (target : ℕ)
  | ret
  | callValue (arity : ℕ)
  | awaitCall (name : CString) (arity : ℕ)
  | awaitValue (arity : ℕ)
  deriving DecidableEq

/-- `Function`. -/
structure Function where
  name : CString
  pure : Bool
  isAsync : Bool
  /-- Derived by verification. -/
  localEffect : Bool
  params : List CString
  ins : List Instruction
  deriving DecidableEq

/-- `Program`. -/
structure Program where
  functions : List Function
  verifiedFunctionOrder : Bool
  deriving DecidableEq

end Panackelty.Vm
