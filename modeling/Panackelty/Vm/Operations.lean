import Panackelty.Vm.Numeric
import Panackelty.Vm.Program

/-!
# `vm/execute.c`: the instructions of one frame

The instructions that neither call nor return work on the registers of the innermost frame.  A trap
clears all frames, so an instruction that traps need not say what it has popped.

An iterator is changed in place and shared by every reference to it; it lives in a heap under its
address.

* `Registers`, `Frame`, `Heap`: what an instruction can change.
* `operate`: every instruction but the calls and `RETURN`.
-/

namespace Panackelty.Vm

/-! ## Indices -/

/-- `SIZE_MAX`. -/
def sizeMax : ℕ := 2 ^ 64 - 1

/-- `pn_big_fits_size`. -/
def pnBigFitsSize (value : PnBigInt) : Option ℕ :=
  if value.sign < 0 then none
  else value.limbs.foldr (fun limb result => result.bind fun result =>
    if (sizeMax - limb) / base < result then none else some (result * base + limb)) (some 0)

/-- `value_index`. -/
def valueIndex : Value → Option ℕ
  | .nat n => pnBigFitsSize n.big.raw
  | _ => none

/-- `value_size`. -/
def valueSize (number : ℕ) : Value := .nat (NatBig.ofNat number)

/-- A result that is there. -/
def okValue (v : Value) : Value := .variant (Str.asciiBytes "Ok") [v]

/-- A result that is an error. -/
def errorValue (v : Value) : Value := .variant (Str.asciiBytes "Error") [v]

/-- A text of the source. -/
def textValue (text : String) : Value := .str (Str.asciiBytes text)

/-- The outcome of a client. -/
def clientOutcome : Option String → Value
  | none => okValue .unit
  | some error => errorValue (textValue error)

/-- The count of characters that `value_data` keeps. -/
def utf8Characters (data : Bytes) : ℕ := data.countP fun c => c &&& 0xc0 != 0x80

/-- How many bytes follow the first byte of a character. -/
def utf8Trailing (c : UInt8) : ℕ :=
  if c < 0x80 then 0 else if c &&& 0xe0 = 0xc0 then 1 else if c &&& 0xf0 = 0xe0 then 2 else 3

/-- The loop of `utf8_offset` over the characters of a string that is not ASCII. -/
def utf8Scan (data : Bytes) (index : ℕ) : (fuel cp i : ℕ) → Option (ℕ × ℕ)
  | 0, _, _ => none
  | fuel + 1, cp, i =>
    match data[i]? with
    | none => none
    | some c =>
      let next := i + 1 + utf8Trailing c
      if cp = index then some (i, next) else utf8Scan data index fuel (cp + 1) next

/-- `utf8_offset`: where a character starts and ends. -/
def utf8Offset (data : Bytes) (index : ℕ) : Option (ℕ × ℕ) :=
  if utf8Characters data ≤ index then none
  else if data.all fun c => c < 0x80 then some (index, index + 1)
  else utf8Scan data index (data.length + 1) 0 0

/-- `OP_INDEX_GET`. -/
def indexGet (a b : Value) : Except Trap Value :=
  match valueIndex b with
  | none => .error ⟨"VM trap: invalid index", if b.kind = .nat then .request else .fatal⟩
  | some index =>
    match a with
    | .array items =>
      match items[index]? with
      | some item => .ok item
      | none => .error (request "VM trap: index is out of bounds")
    | .bytes data =>
      match data[index]? with
      | some byte => .ok (valueSize byte.toNat)
      | none => .error (request "VM trap: index is out of bounds")
    | .str data =>
      match utf8Offset data index with
      | some (start, stop) => .ok (.str ((data.drop start).take (stop - start)))
      | none => .error (request "VM trap: index is out of bounds")
    | _ => .error (fatal "VM trap: value is not indexable")

/-! ## Constants and unary operators -/

/-- `constant_value`.  The text of a `Nat` constant has no sign. -/
def constantValue : Constant → Value
  | .nat number => .nat ⟨number.abs, by simp⟩
  | .int number => .int number
  | .decimal negative number exponent => .dec ⟨number, exponent, negative && number.isZero⟩
  | .text text => .str text
  | .bool boolean => .bool boolean
  | .void => .void

/-- `OP_UNARY`; code 1 is `!`, any other code is `-`. -/
def unaryValue (code : ℕ) (a : Value) : Except Trap Value :=
  if code = 1 then
    match a with
    | .bool boolean => .ok (.bool !boolean)
    | _ => .error (fatal "VM trap: ! requires Bool")
  else
    match a with
    | .dec d => .ok (valueDecimal d.coefficient.neg d.exponent)
    | .rat r => valueRatClassified r.numerator.neg r.denominator
    | .nat n => .ok (.int n.big.neg)
    | .int n => .ok (.int n.neg)
    | _ => .error (fatal "VM trap: unary - requires numeric value")

/-! ## Registers -/

/-- What an instruction can change of its frame.  The top of the stack comes first. -/
structure Registers where
  pc : ℕ
  stack : List Value
  locals : List (CString × Value)

/-- `Frame`. -/
structure Frame where
  function : Function
  registers : Registers

/-- A `V_ITER`. -/
structure Iterator where
  iterable : Value
  index : ℕ
  cursor : NatBig

/-- The iterators by address, the latest state first, and the next free address. -/
structure Heap where
  next : ℕ
  iterators : List (ℕ × Iterator)

namespace Heap

/-- The iterator at an address. -/
def get (heap : Heap) (address : ℕ) : Option Iterator := heap.iterators.lookup address

/-- An iterator is stored. -/
def put (heap : Heap) (address : ℕ) (iterator : Iterator) : Heap :=
  { heap with iterators := (address, iterator) :: heap.iterators }

end Heap

/-- `local_put` on the locals of a frame. -/
def localPut (name : CString) (value : Value) : List (CString × Value) → List (CString × Value)
  | [] => [(name, value)]
  | (other, old) :: locals =>
    if other = name then (other, value) :: locals else (other, old) :: localPut name value locals

namespace Registers

/-- `stack_push`. -/
def push (r : Registers) (v : Value) : Registers := { r with stack := v :: r.stack }

/-- The trap of an empty stack. -/
def underflow : Trap := fatal "VM trap: operand stack underflow"

/-- `stack_pop`. -/
def pop (r : Registers) : Except Trap (Value × Registers) :=
  match r.stack with
  | [] => .error underflow
  | v :: stack => .ok (v, { r with stack })

/-- `stack_pop` for each of several operands, the last operand first. -/
def popMany (r : Registers) (count : ℕ) : Except Trap (List Value × Registers) :=
  if r.stack.length < count then .error underflow
  else .ok ((r.stack.take count).reverse, { r with stack := r.stack.drop count })

/-- `local_get`. -/
def localGet (r : Registers) (name : CString) : Option Value := r.locals.reverse.lookup name

/-- `local_put`. -/
def put (r : Registers) (name : CString) (value : Value) : Registers :=
  { r with locals := localPut name value r.locals }

/-- A jump. -/
def jump (r : Registers) (target : ℕ) : Registers := { r with pc := target }

theorem pop_pc {r r' : Registers} {v : Value} (h : r.pop = .ok (v, r')) : r'.pc = r.pc := by
  unfold pop at h
  split at h
  · cases h
  · cases h
    rfl

theorem popMany_pc {r r' : Registers} {count : ℕ} {vals : List Value}
    (h : r.popMany count = .ok (vals, r')) : r'.pc = r.pc := by
  unfold popMany at h
  split_ifs at h
  cases h
  rfl

end Registers

/-! ## Instructions -/

/-- The loop of `OP_INTERPOLATE`. -/
def interpolate (render : Value → Bytes) : List CString → List Value → Bytes
  | [], _ => []
  | item :: items, [] => item.bytes ++ interpolate render items []
  | item :: items, value :: values => item.bytes ++ render value ++ interpolate render items values

/-- `OP_ITER_NEXT`: the next value and the iterator after it, or the end. -/
def Iterator.advance (it : Iterator) : Except Trap (Option (Value × Iterator)) :=
  match it.iterable with
  | .range _ _ stop =>
    if 0 ≤ it.cursor.big.compare stop.big then .ok none
    else
      have hnonneg : 0 ≤ (it.cursor.big.add (Big.ofNat 1)).toInt := by
        have := it.cursor.nonneg
        rw [Big.toInt_add, Big.toInt_ofNat]
        omega
      .ok (some (.nat it.cursor, { it with cursor := ⟨_, hnonneg⟩ }))
  | .array items =>
    match items[it.index]? with
    | none => .ok none
    | some item => .ok (some (item, { it with index := it.index + 1 }))
  | .bytes data =>
    match data[it.index]? with
    | none => .ok none
    | some byte => .ok (some (valueSize byte.toNat, { it with index := it.index + 1 }))
  | _ => .error (fatal "VM trap: value is not iterable")

/-- `OP_FIELD_GET`. -/
def fieldGet (name : CString) : Value → Except Trap Value
  | .record _ names values =>
    match (names.zip values).lookup name.bytes with
    | some v => .ok v
    | none => .error (fatal "VM trap: record has no field")
  | _ => .error (fatal "VM trap: field access requires a record")

/-- The instructions other than the calls and `RETURN`. -/
def operate (render : Value → Bytes) (instruction : Instruction) (r : Registers) (heap : Heap) :
    Except Trap (Registers × Heap) :=
  match instruction with
  | .const constant => .ok (r.push (constantValue constant), heap)
  | .load name =>
    match r.localGet name with
    | some v => .ok (r.push v, heap)
    | none => .error (fatal "VM trap: uninitialized local")
  | .store name => do
    let (v, r) ← r.pop
    pure (r.put name v, heap)
  | .pop => do
    let (_, r) ← r.pop
    pure (r, heap)
  | .unary code => do
    let (a, r) ← r.pop
    let v ← unaryValue code a
    pure (r.push v, heap)
  | .binary code => do
    let (b, r) ← r.pop
    let (a, r) ← r.pop
    let v ← binaryValueClassified code a b
    pure (r.push v, heap)
  | .makeRange => do
    let (b, r) ← r.pop
    let (a, r) ← r.pop
    match a, b with
    | .nat start, .nat stop =>
      pure (r.push (.range heap.next start stop), { heap with next := heap.next + 1 })
    | _, _ => .error (fatal "VM trap: range bounds require Nat")
  | .makeArray count => do
    let (items, r) ← r.popMany count
    pure (r.push (.array items), heap)
  | .indexGet => do
    let (b, r) ← r.pop
    let (a, r) ← r.pop
    let v ← indexGet a b
    pure (r.push v, heap)
  | .interpolate items => do
    let (values, r) ← r.popMany (items.length - 1)
    pure (r.push (.str (interpolate render items values)), heap)
  | .iterInit name => do
    let (a, r) ← r.pop
    let cursor := match a with
      | .range _ start _ => start
      | _ => NatBig.ofNat 0
    pure (r.put name (.iter heap.next),
      { heap.put heap.next ⟨a, 0, cursor⟩ with next := heap.next + 1 })
  | .iterNext name name2 target =>
    match r.localGet name with
    | some (.iter address) =>
      match heap.get address with
      | none => .error (fatal "VM trap: invalid iterator")
      | some it =>
        match it.advance with
        | .error trap => .error trap
        | .ok none => .ok (r.jump target, heap)
        | .ok (some (v, it)) => .ok (r.put name2 v, heap.put address it)
    | _ => .error (fatal "VM trap: invalid iterator")
  | .makeRecord name items => do
    let (values, r) ← r.popMany items.length
    pure (r.push (.record name.bytes (items.map CString.bytes) values), heap)
  | .fieldGet name => do
    let (a, r) ← r.pop
    let v ← fieldGet name a
    pure (r.push v, heap)
  | .makeVariant _ name2 count => do
    let (values, r) ← r.popMany count
    pure (r.push (.variant name2.bytes values), heap)
  | .matchVariant name target => do
    let (a, r) ← r.pop
    match a with
    | .variant variant values =>
      if variant = name.bytes then pure ({ r with stack := values.reverse ++ r.stack }, heap)
      else pure (r.jump target, heap)
    | _ => .error (fatal "VM trap: match subject is not an enum")
  | .matchFail => .error (fatal "VM trap: enum match was not exhaustive")
  | .jumpFalse target => do
    let (a, r) ← r.pop
    match a with
    | .bool true => pure (r, heap)
    | .bool false => pure (r.jump target, heap)
    | _ => .error (fatal "VM trap: conditional requires Bool")
  | .jump target => .ok (r.jump target, heap)
  | _ => .error (fatal "VM trap: unknown instruction")

end Panackelty.Vm
