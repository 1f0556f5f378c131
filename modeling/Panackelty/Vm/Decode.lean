import Panackelty.Bytecode.Format
import Panackelty.Library.Reader
import Panackelty.Vm.Program

/-!
# `vm/decode.c`: the decoder

A function that reads returns a value or nothing and keeps the first error in the reader.  Where the
source reads on after an error, what it reads is dropped and the error stays, so the functions here
stop.  Allocation does not fail.
-/

namespace Panackelty.Vm

open Library Library.Digits

/-- `pn_big_from_bytes` on a buffer. -/
def Big.fromBytes (p : Bytes) : Big :=
  ⟨pnBigFromBytes (p.map UInt8.toNat), pnBigFromBytes_normal fun d hd => by
    obtain ⟨b, _, rfl⟩ := List.mem_map.mp hd
    exact b.toNat_lt⟩

/-- `pn_big_from_digits`, which is called with digits. -/
def Big.fromDigits (digits : List ℕ) (sign : ℤ) : Big :=
  ⟨pnBigFromDigits (digits.map (· % 10)) sign, (pnBigFromDigits_spec (fun d hd => by
    obtain ⟨x, _, rfl⟩ := List.mem_map.mp hd
    exact Nat.mod_lt x (by decide)) sign).1⟩

namespace Decoder

/-- `Reader`. -/
structure Reader where
  data : Bytes
  position : ℕ
  error : Option String

/-- `fail`. -/
def Reader.fail (r : Reader) (message : String) : Reader :=
  if r.error.isSome then r else { r with error := some message }

/-- The reading functions: a state and a result that is empty where the C function returns `false`
or `NULL`. -/
abbrev Decode (α : Type) := Attempt Reader α

/-- `fail(r, message); return false;` -/
def Decode.fail {α : Type} (message : String) : Decode α := fun r => (r.fail message, none)

/-- Fail under a condition. -/
def Decode.failIf (condition : Prop) [Decidable condition] (message : String) : Decode Unit :=
  if condition then Decode.fail message else pure ()

/-! ## Numbers and text -/

/-- `take`. -/
def take (n : ℕ) : Decode Bytes := fun r =>
  if r.data.length - r.position < n then (r.fail "truncated data", none)
  else ({ r with position := r.position + n }, some ((r.data.drop r.position).take n))

/-- Bytes as one number, the first byte highest. -/
def wordOf (p : Bytes) : ℕ := p.foldl (fun word byte => word <<< 8 ||| byte.toNat) 0

/-- `u8`. -/
def u8 : Decode ℕ := do
  let p ← take 1
  pure (wordOf p)

/-- `u16`. -/
def u16 : Decode ℕ := do
  let p ← take 2
  pure (wordOf p)

/-- `u32`. -/
def u32 : Decode ℕ := do
  let p ← take 4
  pure (wordOf p)

/-- The buffer of `text`, which is known to be UTF-8. -/
def textBuffer (n : ℕ) : Decode Str := do
  let p ← take n
  if h : utf8 p = true then pure ⟨p, h⟩ else Decode.fail "invalid UTF-8"

/-- `text`. -/
def text (name : Bool) : Decode Str :=
  if name then do
    let n ← u16
    Decode.failIf (1024 < n) "name exceeds limit"
    textBuffer n
  else do
    let n ← u32
    Decode.failIf (1024 * 1024 < n) "text exceeds limit"
    textBuffer n

/-- A name: the buffer as a C string. -/
def name : Decode CString := do
  let buffer ← text true
  pure (CString.ofBytes buffer.bytes)

/-- The part of `read_nat` after the magnitude is taken. -/
def magnitude (p : Bytes) : Decode Big := do
  -- the test `n && p[0] == 0`
  Decode.failIf (p.head? = some 0) "non-minimal integer"
  Decode.failIf (4096 < (pnBigString (Big.fromBytes p).raw).length) "integer exceeds digit limit"
  pure (Big.fromBytes p)

/-- `read_nat`. -/
def readNat : Decode Big := do
  let n ← u16
  Decode.failIf ((4096 * 3322 + 7999) / 8000 < n) "integer exceeds digit limit"
  let p ← take n
  magnitude p

/-! ## Constants -/

/-- The `i`th digit of packed digits. -/
def nibble (p : Bytes) (i : ℕ) : ℕ :=
  if i % 2 = 1 then (p.getD (i / 2) 0).toNat % 16 else (p.getD (i / 2) 0).toNat / 16

/-- The signed value of sixteen bits. -/
def int16 (encoded : ℕ) : ℤ := if 32768 ≤ encoded then (encoded : ℤ) - 65536 else encoded

/-- The part of `read_decimal` after the packed digits are taken. -/
def decimalDigits (sign : ℕ) (exponent : ℤ) (digits : ℕ) (p : Bytes) : Decode Constant := do
  let value := (List.range digits).map (nibble p)
  Decode.failIf (¬ ∀ d ∈ value, d ≤ 9) "invalid decimal digit"
  Decode.failIf (digits % 2 = 1 ∧ (p.getD ((digits + 1) / 2 - 1) 0).toNat % 16 ≠ 15)
    "invalid decimal padding"
  Decode.failIf (1 < digits ∧ value.head? = some 0) "non-minimal decimal coefficient"
  pure (.decimal (sign ≠ 0) (Big.fromDigits value (if sign ≠ 0 then -1 else 1)) exponent)

/-- `read_decimal`. -/
def readDecimal : Decode Constant := do
  let sign ← u8
  let ex ← u16
  let digits ← u16
  let exponent := int16 ex
  Decode.failIf (1 < sign ∨ digits = 0 ∨ 4096 < exponent ∨ exponent < -4096 ∨ 4096 < digits)
    "invalid decimal"
  let p ← take ((digits + 1) / 2)
  decimalDigits sign exponent digits p

/-- The branch of `read_constant` for signed integers. -/
def readInteger : Decode Constant := do
  let sign ← u8
  Decode.failIf (1 < sign) "invalid integer sign"
  let number ← readNat
  Decode.failIf (sign ≠ 0 ∧ number.isZero = true) "negative zero integer"
  pure (.int (if sign ≠ 0 then number.neg else number))

/-- `read_constant`, after the tag. -/
def constantBody : ℕ → Decode Constant
  | 0 => do
    let number ← readNat
    pure (.nat number)
  | 1 => readInteger
  | 2 => readDecimal
  | 3 => do
    let buffer ← text false
    pure (.text buffer.bytes)
  | 4 => do
    let sign ← u8
    Decode.failIf (1 < sign) "invalid Bool constant"
    pure (.bool (sign ≠ 0))
  | 5 => pure .void
  | _ => Decode.fail "unknown constant tag"

/-- `read_constant`. -/
def readConstant : Decode Constant := do
  let tag ← u8
  constantBody tag

/-! ## Instructions -/

/-- The loops over texts and instructions: `i < count && !r->error`. -/
def repeated {α : Type} (item : Decode α) (count : ℕ) : Decode (List α) :=
  Attempt.repeatWhile (fun r => r.error.isNone) item count

/-- `strings`. -/
def strings (count : ℕ) (names : Bool) : Decode (List CString) :=
  repeated (do
    let buffer ← text names
    pure (CString.ofBytes buffer.bytes)) count

/-- An operator code with its limit. -/
def operator (limit : ℕ) (message : String) : Decode ℕ := do
  let code ← u8
  Decode.failIf (limit < code) message
  pure code

/-- `instruction`, after the opcode. -/
def instructionBody : ℕ → Decode Instruction
  | 0 => do
    let constant ← readConstant
    pure (.const constant)
  | 1 => do
    let name ← name
    pure (.load name)
  | 2 => do
    let name ← name
    pure (.store name)
  | 3 => pure .pop
  | 4 => do
    let code ← operator 1 "unknown unary operator"
    pure (.unary code)
  | 5 => do
    let code ← operator 12 "unknown binary operator"
    pure (.binary code)
  | 6 => pure .makeRange
  | 7 => do
    let count ← u16
    pure (.makeArray count)
  | 8 => pure .indexGet
  | 9 => do
    let count ← u16
    let items ← strings count false
    pure (.interpolate items)
  | 10 => do
    let name ← name
    pure (.iterInit name)
  | 11 => do
    let names ← Attempt.both name name
    let target ← u32
    pure (.iterNext names.1 names.2 target)
  | 12 => do
    let name ← name
    let count ← u16
    let items ← strings count true
    pure (.makeRecord name items)
  | 13 => do
    let name ← name
    pure (.fieldGet name)
  | 14 => do
    let names ← Attempt.both name name
    let count ← u16
    pure (.makeVariant names.1 names.2 count)
  | 15 => do
    let name ← name
    let target ← u32
    pure (.matchVariant name target)
  | 16 => pure .matchFail
  | 17 => do
    let name ← name
    let arity ← u8
    pure (.call name arity)
  | 18 => do
    let target ← u32
    pure (.jumpFalse target)
  | 19 => do
    let target ← u32
    pure (.jump target)
  | 20 => pure .ret
  | 21 => do
    let arity ← u8
    pure (.callValue arity)
  | 22 => do
    let name ← name
    let arity ← u8
    pure (.awaitCall name arity)
  | 23 => do
    let arity ← u8
    pure (.awaitValue arity)
  | _ => Decode.fail "unknown bytecode opcode"

/-- `instruction`. -/
def instruction : Decode Instruction := do
  let op ← u8
  instructionBody op

/-! ## Programs -/

/-- The instructions of a function, when `total` of them precede. -/
def functionBody (total : ℕ) (name : CString) (flags : ℕ) (params : List CString) (ins : ℕ) :
    Decode (Function × ℕ) := do
  Decode.failIf (1000000 < ins ∨ 4000000 < total + ins) "instruction count exceeds limit"
  let body ← repeated instruction ins
  pure (⟨name, flags = 1, flags = 2, false, params, body⟩, total + ins)

/-- The body of the function loop of `decode`. -/
def function (total : ℕ) : Decode (Function × ℕ) := do
  let fname ← name
  let flags ← u8
  Decode.failIf (2 < flags) "invalid function flags"
  let count ← u8
  let params ← repeated name count
  let ins ← u32
  functionBody total fname flags params ins

/-- The function loop of `decode`. -/
def functionLoop : (count total : ℕ) → Decode (List Function)
  | 0, _ => pure []
  | count + 1, total => fun r =>
    if r.error.isNone then
      (do
        let f ← function total
        let functions ← functionLoop count f.2
        pure (f.1 :: functions)) r
    else (r, none)

theorem functionLoop_succ (count total : ℕ) (r : Reader) :
    functionLoop (count + 1) total r = if r.error.isNone then
      (do
        let f ← function total
        let functions ← functionLoop count f.2
        pure (f.1 :: functions) : Decode (List Function)) r
    else (r, none) := rfl

/-- The test of the magic; a short artifact is not told apart. -/
def header : Decode Unit := fun r =>
  match take 9 r with
  | (taken, some magic) =>
    if magic = Bytecode.Format.magic then (taken, some ())
    else Decode.fail "not a Panackelty bytecode file" r
  | (_, none) => Decode.fail "not a Panackelty bytecode file" r

/-- The part of `decode` that reads. -/
def functionTable : Decode (List Function) := do
  header
  let version ← u16
  Decode.failIf (version ≠ 9) "unsupported bytecode version"
  let count ← u16
  Decode.failIf (4096 < count) "function count exceeds limit"
  functionLoop count 0

/-- The end of `decode`. -/
def finish (r : Reader) (functions : Option (List Function)) : Except String Program :=
  let r := if r.error.isNone ∧ r.position ≠ r.data.length then r.fail "trailing data" else r
  match r.error, functions with
  | none, some functions => .ok ⟨functions, false⟩
  | error, _ => .error (error.getD "")

end Decoder

open Decoder in
/-- `decode`. -/
def decode (data : Bytes) : Except String Program :=
  if 16777216 < data.length then .error "artifact exceeds size limit"
  else
    let out := functionTable ⟨data, 0, none⟩
    finish out.1 out.2

end Panackelty.Vm
