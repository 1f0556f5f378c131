import Panackelty.Vm.BuiltinsNumeric
import Panackelty.Vm.BuiltinsText

/-!
# Faults of the pure operations of the language

An operation whose operands have the kinds that its type asks for can still trap, because of their
values.  Such a trap is the fault of the request that supplied the values, and most sites say so; a
few leave the kind of the fault at its initial value, which is fatal.

* `Operation`: the operators, indexing, and the builtins of the language.
* `Operation.Typed`: operands as the type checker admits them.
* `Operation.unclassified`, `Operation.misaligned`: where the site does not set the kind.
* `trap_fault_iff`: a trap on typed operands is request-scoped exactly for the other operations.
-/

namespace Panackelty.Vm

open Bool (and_eq_true or_eq_true)

/-! ## Operations -/

/-- `builtin_call` for the builtins of the language. -/
def languageCall (b : BuiltinName) (a : List Value) : Except Trap Value :=
  match (builtinRow b).map Builtin.call with
  | some .builtinsNumericCall => builtinsNumericCall b a
  | some .builtinsTextCall => builtinsTextCall b a
  | some .builtinsCollectionsCall => builtinsCollectionsCall b a
  | _ => .error (fatal "VM trap: unknown builtin")

/-- An operation that computes a value from its operands alone. -/
inductive Operation where
  | unary (code : ℕ)
  | binary (code : ℕ)
  | index
  | builtin (b : BuiltinName)
  deriving DecidableEq

/-- The value of an operation, or its trap. -/
def Operation.eval : Operation → List Value → Except Trap Value
  | .unary code, a => unaryValue code (argument a 0)
  | .binary code, a => binaryValueClassified code (argument a 0) (argument a 1)
  | .index, a => indexGet (argument a 0) (argument a 1)
  | .builtin b, a => languageCall b a

/-! ## Types of operands -/

/-- The kinds of exact numbers. -/
def exactKind (k : ValueKind) : Bool := k == .nat || k == .int || k == .rat

/-- The kinds that the type checker admits for an operator. -/
def binaryAccepts (code : ℕ) (a b : ValueKind) : Bool :=
  if code = 11 ∨ code = 12 then a == .bool && b == .bool
  else if code = 5 ∨ code = 6 then true
  else if code = 7 ∨ code = 8 ∨ code = 9 ∨ code = 10 then
    (exactKind a && exactKind b) || (a == .dec && b == .dec) || (a == .str && b == .str)
  else if code = 4 then (a == .dec && b == .dec) ||
    ((a == .nat || a == .int) && (b == .nat || b == .int))
  else if code = 0 ∨ code = 1 ∨ code = 2 ∨ code = 3 then
    (exactKind a && exactKind b) || (a == .dec && b == .dec) ||
      (code == 0 && a == .str && b == .str)
  else false

/-- The kinds of the parameters of a builtin of the language. -/
def signature : BuiltinName → Option (List (ValueKind → Bool))
  | .dollarUnit => some []
  | .quotient => some [(· == .nat), (· == .nat)]
  | .nat | .dec => some [(· == .rat)]
  | .len => some [fun k => k == .str || k == .bytes || k == .array || k == .map || k == .set]
  | .concat => some [(· == .array), (· == .array)]
  | .slice => some [(· == .str), (· == .nat), (· == .nat)]
  | .startsWith => some [(· == .str), (· == .str)]
  | .startsWithAt => some [(· == .str), (· == .str), (· == .nat)]
  | .reverse | .isDigit | .isLetter | .isWhitespace => some [(· == .str)]
  | .byteAppend => some [(· == .bytes), (· == .nat)]
  | .bytesConcat => some [(· == .bytes), (· == .bytes)]
  | .byteLen => some [(· == .bytes)]
  | .byteGet => some [(· == .bytes), (· == .nat)]
  | .utf8Encode => some [(· == .str)]
  | .utf8Decode => some [(· == .bytes)]
  | .natFromStr => some [(· == .str)]
  | .append => some [(· == .array), fun _ => true]
  | .map | .set | .bytes => some []
  | .mapHas | .mapGet => some [(· == .map), fun _ => true]
  | .mapPut => some [(· == .map), fun _ => true, fun _ => true]
  | .setHas | .setAdd => some [(· == .set), fun _ => true]
  | .dollarMethodGet => some [(· == .map), fun _ => true]
  | .dollarMethodHas => some [fun k => k == .map || k == .set, fun _ => true]
  | .dollarMethodPut => some [(· == .map), fun _ => true, fun _ => true]
  | .dollarMethodAdd => some [(· == .set), fun _ => true]
  | _ => none

/-- The values have the kinds of the parameters. -/
def hasKinds : List (ValueKind → Bool) → List Value → Bool
  | [], [] => true
  | test :: tests, v :: values => test v.kind && hasKinds tests values
  | _, _ => false

/-- The kinds of operands that the type checker admits. -/
def Operation.accepts : Operation → List Value → Bool
  | .unary code, [a] => if code = 1 then a.kind == .bool else exactKind a.kind || a.kind == .dec
  | .binary code, [a, b] => binaryAccepts code a.kind b.kind
  | .index, [a, b] =>
    (a.kind == .array || a.kind == .bytes || a.kind == .str) && b.kind == .nat
  | .builtin b, values => (signature b).any fun tests => hasKinds tests values
  | _, _ => false

/-- A text is valid UTF-8. -/
def Value.ValidText : Value → Prop
  | .str data => utf8 data = true
  | _ => True

/-- Operands as the type checker admits them. -/
structure Operation.Typed (op : Operation) (values : List Value) : Prop where
  accepts : op.accepts values = true
  text : ∀ v ∈ values, v.ValidText

/-- The operations whose traps leave the kind of the fault as it was. -/
def Operation.unclassified : Operation → Bool
  | .builtin .quotient | .builtin .nat | .builtin .byteAppend | .builtin .utf8Decode
  | .builtin .natFromStr => true
  | _ => false

/-- `+`, `-` and `%` of decimals whose exponents are too far apart for an `int`: the memory ends
before the coefficients are aligned. -/
def Operation.misaligned : Operation → List Value → Bool
  | .binary code, [.dec a, .dec b] =>
    (code == 0 || code == 1 || code == 4) && decide (2 ^ 31 ≤ (a.exponent - b.exponent).natAbs)
  | _, _ => false

/-! ## The faults of a result -/

/-- A trap, if there is one, is of the given kind. -/
def Traps (fault : VMFaultKind) (result : Except Trap Value) : Prop :=
  ∀ t, result = .error t → t.fault = fault

section Traps

variable {fault : VMFaultKind}

theorem traps_ok (v : Value) : Traps fault (.ok v) := by
  intro t h
  cases h

theorem traps_error {t : Trap} (h : t.fault = fault) : Traps fault (.error t) := by
  intro t' ht
  cases ht
  exact h

theorem traps_request (error : String) : Traps .request (.error (request error)) := traps_error rfl

theorem traps_fatal (error : String) : Traps .fatal (.error (fatal error)) := traps_error rfl

end Traps

/-! ## Arithmetic -/

theorem traps_valueRatClassified (n d : Big) : Traps .request (valueRatClassified n d) := by
  unfold valueRatClassified
  split
  · exact traps_request _
  next hd =>
  have hd0 : d.toInt ≠ 0 := fun h0 => by
    rw [Big.isZero_iff.mpr h0] at hd
    cases hd
  obtain ⟨nn, dd, hparts, _⟩ := ratParts_spec n hd0
  split
  · next hnone =>
    cases hparts.symm.trans hnone
  · exact traps_ok _

theorem traps_decimalDivide (a b : Decimal) : Traps .request (decimalDivide a b) := by
  unfold decimalDivide
  split_ifs with hzero
  · exact traps_request _
  have hb : b.coefficient.toInt ≠ 0 := fun h0 => hzero (Big.isZero_iff.mpr h0)
  obtain ⟨g, hg, hgcd⟩ := bigGcd_spec a.coefficient b.coefficient
  have hg0 : g.toInt ≠ 0 := by
    rw [hgcd]
    exact_mod_cast (Int.gcd_pos_of_ne_zero_right _ hb).ne'
  obtain ⟨num, r, hnum, _⟩ := Big.divmod_eq_some (a := a.coefficient) hg0
  obtain ⟨den, r', hden, _⟩ := Big.divmod_eq_some (a := b.coefficient) hg0
  simp only [hg, hnum, hden]
  split
  · exact traps_request _
  · exact traps_ok _

theorem traps_decimalBinaryClassified {op : ℕ} (hop : op ≤ 4) {a b : Decimal}
    (hfit : (Operation.binary op).misaligned [.dec a, .dec b] = false) :
    Traps .request (decimalBinaryClassified op a b) := by
  unfold decimalBinaryClassified
  by_cases h : op = 0 ∨ op = 1 ∨ op = 4
  · have hsome : (decimalAlign a b).isSome := by
      rw [decimalAlign_isSome_iff]
      simpa [Operation.misaligned, or_assoc, h] using hfit
    obtain ⟨⟨left, right, e⟩, halign⟩ := Option.isSome_iff_exists.mp hsome
    rw [if_pos h, halign]
    simp only
    split_ifs with h0 h1 hzero
    · exact traps_ok _
    · exact traps_ok _
    · exact traps_request _
    · obtain ⟨q, r, hdiv, _⟩ := Big.divmod_eq_some (a := left)
        (fun h0 => hzero (Big.isZero_iff.mpr h0))
      rw [hdiv]
      exact traps_ok _
  rw [if_neg h]
  split_ifs
  · exact traps_ok _
  · exact traps_decimalDivide a b
  · omega

theorem traps_natResult (res : Big) : Traps .request (natResult res) := by
  unfold natResult
  split_ifs
  · exact traps_request _
  · exact traps_ok _

theorem traps_bind {x : Except Trap Big} {f : Big → Except Trap Value}
    (hx : ∀ t, x = .error t → t.fault = .request) (hf : ∀ r, Traps .request (f r)) :
    Traps .request (x >>= f) := by
  cases x with
  | error t => exact traps_error (hx t rfl)
  | ok r => exact hf r

theorem integerRemainder_fault (x y : Big) :
    ∀ t, integerRemainder x y = .error t → t.fault = .request := by
  intro t ht
  by_cases hy : y.toInt = 0
  · rw [integerRemainder, if_pos (Big.isZero_iff.mpr hy)] at ht
    cases ht
    rfl
  · obtain ⟨r, hr, _⟩ := integerRemainder_spec x hy
    cases hr.symm.trans ht

/-- The integer that an operator computes before its kind is looked at. -/
theorem integerBinary_eq (op : ℕ) (x y : Big) (isInt : Bool) : integerBinary op x y isInt =
    ((if op = 0 then .ok (x.add y) else if op = 1 then .ok (x.sub y)
      else if op = 2 then .ok (x.mul y) else integerRemainder x y) >>= fun res =>
        if isInt then .ok (.int res) else natResult res) := by
  unfold integerBinary
  by_cases h0 : op = 0
  · simp [h0]
  by_cases h1 : op = 1
  · simp [h1]
  by_cases h2 : op = 2
  · simp [h2]
  · simp [h0, h1, h2]

theorem traps_integerBinary (op : ℕ) (x y : Big) (isInt : Bool) :
    Traps .request (integerBinary op x y isInt) := by
  rw [integerBinary_eq]
  refine traps_bind ?_ fun res => ?_
  · intro t ht
    split_ifs at ht
    exact integerRemainder_fault x y t ht
  · cases isInt
    · exact traps_natResult res
    · exact traps_ok _

theorem traps_rationalBinary {op : ℕ} (hop : op ≠ 4) (a b : Value) :
    Traps .request (rationalBinary op a b) := by
  unfold rationalBinary
  split_ifs
  · exact traps_ok _
  · exact traps_ok _
  · exact traps_ok _
  · exact traps_valueRatClassified _ _
  · exact traps_valueRatClassified _ _
  · exact traps_valueRatClassified _ _
  · exact traps_valueRatClassified _ _
  · omega

/-! ## Values of a kind -/

section Kinds

variable {v : Value}

theorem exists_nat (h : v.kind = .nat) : ∃ n, v = .nat n := by
  cases v <;> first | exact ⟨_, rfl⟩ | cases h

theorem exists_int (h : v.kind = .int) : ∃ n, v = .int n := by
  cases v <;> first | exact ⟨_, rfl⟩ | cases h

theorem exists_rat (h : v.kind = .rat) : ∃ r, v = .rat r := by
  cases v <;> first | exact ⟨_, rfl⟩ | cases h

theorem exists_dec (h : v.kind = .dec) : ∃ d, v = .dec d := by
  cases v <;> first | exact ⟨_, rfl⟩ | cases h

theorem exists_bool (h : v.kind = .bool) : ∃ b, v = .bool b := by
  cases v <;> first | exact ⟨_, rfl⟩ | cases h

theorem exists_str (h : v.kind = .str) : ∃ data, v = .str data := by
  cases v <;> first | exact ⟨_, rfl⟩ | cases h

theorem exists_bytes (h : v.kind = .bytes) : ∃ data, v = .bytes data := by
  cases v <;> first | exact ⟨_, rfl⟩ | cases h

theorem exists_array (h : v.kind = .array) : ∃ items, v = .array items := by
  cases v <;> first | exact ⟨_, rfl⟩ | cases h

theorem exists_map (h : v.kind = .map) : ∃ items, v = .map items := by
  cases v <;> first | exact ⟨_, rfl⟩ | cases h

theorem exists_set (h : v.kind = .set) : ∃ items, v = .set items := by
  cases v <;> first | exact ⟨_, rfl⟩ | cases h

theorem exactKind_iff {k : ValueKind} : exactKind k = true ↔ k = .nat ∨ k = .int ∨ k = .rat := by
  simp [exactKind, or_assoc]

theorem exists_integer (h : exactKind v.kind) (hrat : v.kind ≠ .rat) :
    ∃ x, integerOf v = some x := by
  rcases exactKind_iff.mp h with h | h | h
  · obtain ⟨n, rfl⟩ := exists_nat h
    exact ⟨_, rfl⟩
  · obtain ⟨n, rfl⟩ := exists_int h
    exact ⟨_, rfl⟩
  · exact absurd h hrat

theorem rationalOperand_iff : rationalOperand v = true ↔ exactKind v.kind = true := by
  cases v <;> exact Iff.rfl

end Kinds

/-! ## Operators -/

section Operators

variable {a b : Value}

theorem integers_cases {x y : Big} (ha : integerOf a = some x) (hb : integerOf b = some y) :
    (∃ c, compareValues a b = some c) ∧
      ∀ op, ∃ isInt, arithmeticBinary op a b = integerBinary op x y isInt := by
  cases a with
  | nat m | int m =>
    cases ha
    cases b with
    | nat n | int n => cases hb; exact ⟨⟨_, rfl⟩, fun op => ⟨_, rfl⟩⟩
    | _ => cases hb
  | _ => cases ha

/-- Operands that may be compared and take part in arithmetic, besides texts: fractions among exact
numbers take the rational path, which is none of the other two. -/
theorem traps_numeric {op : ℕ} (hop : op ≤ 10) (h4 : op = 4 → a.kind ≠ .rat ∧ b.kind ≠ .rat)
    (h : (exactKind a.kind = true ∧ exactKind b.kind = true) ∨ (a.kind = .dec ∧ b.kind = .dec))
    (hfit : (Operation.binary op).misaligned [a, b] = false) :
    Traps .request (binaryValueClassified op a b) := by
  have hkinds (hrat : ¬(op ≤ 10 ∧ rationalOperand a ∧ rationalOperand b ∧
      (a.kind = .rat ∨ b.kind = .rat ∨ op = 3))) :
      (∃ x y, integerOf a = some x ∧ integerOf b = some y) ∨ ∃ x y, a = .dec x ∧ b = .dec y := by
    rcases h with ⟨ha, hb⟩ | ⟨ha, hb⟩
    · have hnone : ¬(a.kind = .rat ∨ b.kind = .rat ∨ op = 3) := fun hr =>
        hrat ⟨hop, rationalOperand_iff.mpr ha, rationalOperand_iff.mpr hb, hr⟩
      obtain ⟨x, hx⟩ := exists_integer ha fun hr => hnone (Or.inl hr)
      obtain ⟨y, hy⟩ := exists_integer hb fun hr => hnone (Or.inr (Or.inl hr))
      exact .inl ⟨x, y, hx, hy⟩
    · obtain ⟨x, hx⟩ := exists_dec ha
      obtain ⟨y, hy⟩ := exists_dec hb
      exact .inr ⟨x, y, hx, hy⟩
  unfold binaryValueClassified
  split_ifs with hrat hbool hcompare
  · refine traps_rationalBinary (fun hop4 => ?_) a b
    rcases hrat.2.2.2 with hr | hr | hr
    · exact (h4 hop4).1 hr
    · exact (h4 hop4).2 hr
    · omega
  · omega
  · -- a comparison
    unfold comparisonBinary
    split_ifs
    · exact traps_ok _
    rcases hkinds hrat with ⟨x, y, hx, hy⟩ | ⟨x, y, rfl, rfl⟩
    · obtain ⟨⟨c, hc⟩, _⟩ := integers_cases hx hy
      rw [hc]
      exact traps_ok _
    · exact traps_ok _
  · rcases hkinds hrat with ⟨x, y, hx, hy⟩ | ⟨x, y, rfl, rfl⟩
    · obtain ⟨_, hbinary⟩ := integers_cases hx hy
      obtain ⟨isInt, heq⟩ := hbinary op
      rw [heq]
      exact traps_integerBinary op x y isInt
    · exact traps_decimalBinaryClassified (by omega) hfit

theorem traps_texts {op : ℕ} {x y : Bytes} (hop : op = 0 ∨ (7 ≤ op ∧ op ≤ 10)) :
    Traps .request (binaryValueClassified op (.str x) (.str y)) := by
  unfold binaryValueClassified
  split_ifs with hrat hbool hcompare
  · simp [rationalOperand] at hrat
  · omega
  · unfold comparisonBinary
    split_ifs
    · exact traps_ok _
    · exact traps_ok _
  · have h0 : op = 0 := by omega
    subst h0
    exact traps_ok _

/-- An operator on operands that the type checker admits traps only with a fault of the request. -/
theorem traps_binary {code : ℕ} (h : binaryAccepts code a.kind b.kind)
    (hfit : (Operation.binary code).misaligned [a, b] = false) :
    Traps .request (binaryValueClassified code a b) := by
  unfold binaryAccepts at h
  split_ifs at h with hbool hequal horder hremainder harithmetic
  · simp only [and_eq_true, beq_iff_eq] at h
    obtain ⟨x, rfl⟩ := exists_bool h.1
    obtain ⟨y, rfl⟩ := exists_bool h.2
    unfold binaryValueClassified
    rw [if_neg (by omega), if_pos hbool]
    exact traps_ok _
  · -- equality asks for no kinds
    unfold binaryValueClassified
    split_ifs with hrat hcompare
    · exact traps_rationalBinary (by omega) a b
    · unfold comparisonBinary
      rw [if_pos hequal]
      exact traps_ok _
    · omega
  · simp only [or_eq_true, and_eq_true, beq_iff_eq] at h
    rcases h with h | ⟨ha, hb⟩
    · exact traps_numeric (by omega) (by omega) h hfit
    obtain ⟨x, rfl⟩ := exists_str ha
    obtain ⟨y, rfl⟩ := exists_str hb
    exact traps_texts (by omega)
  · simp only [or_eq_true, and_eq_true, beq_iff_eq] at h
    rcases h with ⟨ha, hb⟩ | ⟨ha, hb⟩
    · refine traps_numeric (by omega) (fun _ => ⟨?_, ?_⟩) (Or.inr ⟨ha, hb⟩) hfit
      · rw [ha]
        decide
      · rw [hb]
        decide
    · refine traps_numeric (by omega) (fun _ => ⟨?_, ?_⟩)
        (Or.inl ⟨exactKind_iff.mpr (by tauto), exactKind_iff.mpr (by tauto)⟩) hfit
      · rcases ha with ha | ha <;> rw [ha] <;> decide
      · rcases hb with hb | hb <;> rw [hb] <;> decide
  · simp only [or_eq_true, and_eq_true, beq_iff_eq] at h
    rcases h with h | ⟨⟨h0, ha⟩, hb⟩
    · exact traps_numeric (by omega) (by omega) h hfit
    obtain ⟨x, rfl⟩ := exists_str ha
    obtain ⟨y, rfl⟩ := exists_str hb
    exact traps_texts (by omega)

theorem traps_unary {code : ℕ}
    (h : (if code = 1 then a.kind == .bool else exactKind a.kind || a.kind == .dec) = true) :
    Traps .request (unaryValue code a) := by
  unfold unaryValue
  split_ifs at h ⊢ with hcode
  · obtain ⟨x, rfl⟩ := exists_bool (beq_iff_eq.mp h)
    exact traps_ok _
  simp only [or_eq_true, beq_iff_eq, exactKind_iff] at h
  rcases h with (h | h | h) | h
  · obtain ⟨n, rfl⟩ := exists_nat h
    exact traps_ok _
  · obtain ⟨n, rfl⟩ := exists_int h
    exact traps_ok _
  · obtain ⟨r, rfl⟩ := exists_rat h
    exact traps_valueRatClassified _ _
  · obtain ⟨d, rfl⟩ := exists_dec h
    exact traps_ok _

theorem traps_index
    (h : ((a.kind == .array || a.kind == .bytes || a.kind == .str) && b.kind == .nat) = true) :
    Traps .request (indexGet a b) := by
  simp only [or_eq_true, and_eq_true, beq_iff_eq] at h
  obtain ⟨n, rfl⟩ := exists_nat h.2
  unfold indexGet
  split
  · exact traps_error rfl
  rcases h.1 with (ha | ha) | ha
  · obtain ⟨items, rfl⟩ := exists_array ha
    simp only
    split
    · exact traps_ok _
    · exact traps_request _
  · obtain ⟨data, rfl⟩ := exists_bytes ha
    simp only
    split
    · exact traps_ok _
    · exact traps_request _
  · obtain ⟨data, rfl⟩ := exists_str ha
    simp only
    split
    · exact traps_ok _
    · exact traps_request _

end Operators

/-! ## Builtins -/

section Signatures

variable {t₁ t₂ t₃ : ValueKind → Bool} {values : List Value}

theorem hasKinds_one (h : hasKinds [t₁] values) : ∃ a, values = [a] ∧ t₁ a.kind = true := by
  rcases values with _ | ⟨a, _ | ⟨b, values⟩⟩
  · cases h
  · exact ⟨a, rfl, by simpa [hasKinds] using h⟩
  · simp [hasKinds] at h

theorem hasKinds_two (h : hasKinds [t₁, t₂] values) :
    ∃ a b, values = [a, b] ∧ t₁ a.kind = true ∧ t₂ b.kind = true := by
  rcases values with _ | ⟨a, values⟩
  · cases h
  rw [hasKinds, and_eq_true] at h
  obtain ⟨b, rfl, hb⟩ := hasKinds_one h.2
  exact ⟨a, b, rfl, h.1, hb⟩

theorem hasKinds_three (h : hasKinds [t₁, t₂, t₃] values) :
    ∃ a b c, values = [a, b, c] ∧ t₁ a.kind = true ∧ t₂ b.kind = true ∧ t₃ c.kind = true := by
  rcases values with _ | ⟨a, values⟩
  · cases h
  rw [hasKinds, and_eq_true] at h
  obtain ⟨b, c, rfl, hb, hc⟩ := hasKinds_two h.2
  exact ⟨a, b, c, rfl, h.1, hb, hc⟩

end Signatures

section Builtins

theorem traps_quotient (a b : NatBig) : Traps .fatal (quotient (.nat a) (.nat b)) := by
  unfold quotient
  simp only
  split_ifs with hzero
  · exact traps_fatal _
  split
  · exact traps_error rfl
  · exact traps_ok _

theorem traps_natConversion (r : Ratio) : Traps .fatal (natConversion (.rat r)) := by
  unfold natConversion
  simp only
  split_ifs
  · exact traps_ok _
  · exact traps_fatal _

theorem traps_byteAppend (data : Bytes) (n : NatBig) :
    Traps .fatal (byteAppend (.bytes data) (.nat n)) := by
  unfold byteAppend
  simp only
  split
  · split_ifs
    · exact traps_fatal _
    · exact traps_ok _
  · exact traps_fatal _

theorem traps_utf8Decode (data : Bytes) : Traps .fatal (utf8Decode (.bytes data)) := by
  unfold utf8Decode
  simp only
  split_ifs
  · exact traps_ok _
  · exact traps_fatal _

theorem traps_natFromStr (data : Bytes) : Traps .fatal (natFromStr (.str data)) := by
  unfold natFromStr
  simp only
  split_ifs
  · exact traps_fatal _
  · exact traps_fatal _
  split
  · exact traps_error rfl
  · exact traps_ok _

theorem traps_slice {data : Bytes} (h : utf8 data) (m n : NatBig) :
    Traps .request (slice (.str data) (.nat m) (.nat n)) := by
  unfold slice
  simp only
  split
  · next start stop _ _ =>
    split_ifs with hbnd
    · exact traps_request _
    have hstart : start ≤ utf8Characters data := by omega
    have hstop : stop ≤ utf8Characters data := by omega
    obtain ⟨bs, hbs⟩ := sliceOffset_isSome h hstart
    obtain ⟨be, hbe⟩ := sliceOffset_isSome h hstop
    rw [hbs, hbe]
    exact traps_ok _
  · exact traps_request _

theorem traps_byteGet (data : Bytes) (n : NatBig) :
    Traps .request (byteGet (.bytes data) (.nat n)) := by
  unfold byteGet
  simp only
  split
  · exact traps_ok _
  · exact traps_request _

theorem traps_mapGet (items : List Value) (key : Value) :
    Traps .request (mapGet (.map items) key) := by
  unfold mapGet
  simp only
  split
  · exact traps_ok _
  · exact traps_request _

theorem traps_startsWithAt (x y : Bytes) (n : NatBig) :
    Traps .request (startsWithAt (.str x) (.str y) (.nat n)) := by
  unfold startsWithAt
  simp only
  split
  · exact traps_ok _
  · exact traps_ok _

theorem traps_len {v : Value} (h : (v.kind == .str || v.kind == .bytes || v.kind == .array ||
    v.kind == .map || v.kind == .set) = true) : Traps .request (len v) := by
  simp only [or_eq_true, beq_iff_eq] at h
  rcases h with (((h | h) | h) | h) | h
  · obtain ⟨x, rfl⟩ := exists_str h
    exact traps_ok _
  · obtain ⟨x, rfl⟩ := exists_bytes h
    exact traps_ok _
  · obtain ⟨x, rfl⟩ := exists_array h
    exact traps_ok _
  · obtain ⟨x, rfl⟩ := exists_map h
    exact traps_ok _
  · obtain ⟨x, rfl⟩ := exists_set h
    exact traps_ok _

/-- The kind of the faults of an operation. -/
def Operation.fault (op : Operation) : VMFaultKind := if op.unclassified then .fatal else .request

/-- A builtin on arguments of its signature traps only with the kind of fault that it has. -/
theorem traps_builtin {b : BuiltinName} {tests : List (ValueKind → Bool)} {values : List Value}
    (hb : signature b = some tests) (h : hasKinds tests values)
    (htext : ∀ v ∈ values, v.ValidText) :
    Traps (Operation.builtin b).fault (languageCall b values) := by
  cases b <;> cases hb
  case dollarUnit | map | set | bytes => exact traps_ok _
  case quotient =>
    obtain ⟨a, b, rfl, ha, hb⟩ := hasKinds_two h
    obtain ⟨m, rfl⟩ := exists_nat (beq_iff_eq.mp ha)
    obtain ⟨n, rfl⟩ := exists_nat (beq_iff_eq.mp hb)
    exact traps_quotient m n
  case nat =>
    obtain ⟨a, rfl, ha⟩ := hasKinds_one h
    obtain ⟨r, rfl⟩ := exists_rat (beq_iff_eq.mp ha)
    exact traps_natConversion r
  case dec =>
    obtain ⟨a, rfl, ha⟩ := hasKinds_one h
    obtain ⟨r, rfl⟩ := exists_rat (beq_iff_eq.mp ha)
    exact traps_decimalDivide _ _
  case len =>
    obtain ⟨a, rfl, ha⟩ := hasKinds_one h
    exact traps_len ha
  case concat =>
    obtain ⟨a, b, rfl, ha, hb⟩ := hasKinds_two h
    obtain ⟨x, rfl⟩ := exists_array (beq_iff_eq.mp ha)
    obtain ⟨y, rfl⟩ := exists_array (beq_iff_eq.mp hb)
    exact traps_ok _
  case slice =>
    obtain ⟨a, b, c, rfl, ha, hb, hc⟩ := hasKinds_three h
    obtain ⟨data, rfl⟩ := exists_str (beq_iff_eq.mp ha)
    obtain ⟨m, rfl⟩ := exists_nat (beq_iff_eq.mp hb)
    obtain ⟨n, rfl⟩ := exists_nat (beq_iff_eq.mp hc)
    exact traps_slice (htext (.str data) List.mem_cons_self) m n
  case startsWith =>
    obtain ⟨a, b, rfl, ha, hb⟩ := hasKinds_two h
    obtain ⟨x, rfl⟩ := exists_str (beq_iff_eq.mp ha)
    obtain ⟨y, rfl⟩ := exists_str (beq_iff_eq.mp hb)
    exact traps_ok _
  case startsWithAt =>
    obtain ⟨a, b, c, rfl, ha, hb, hc⟩ := hasKinds_three h
    obtain ⟨x, rfl⟩ := exists_str (beq_iff_eq.mp ha)
    obtain ⟨y, rfl⟩ := exists_str (beq_iff_eq.mp hb)
    obtain ⟨n, rfl⟩ := exists_nat (beq_iff_eq.mp hc)
    exact traps_startsWithAt x y n
  case byteAppend =>
    obtain ⟨a, b, rfl, ha, hb⟩ := hasKinds_two h
    obtain ⟨data, rfl⟩ := exists_bytes (beq_iff_eq.mp ha)
    obtain ⟨n, rfl⟩ := exists_nat (beq_iff_eq.mp hb)
    exact traps_byteAppend data n
  case bytesConcat =>
    obtain ⟨a, b, rfl, ha, hb⟩ := hasKinds_two h
    obtain ⟨x, rfl⟩ := exists_bytes (beq_iff_eq.mp ha)
    obtain ⟨y, rfl⟩ := exists_bytes (beq_iff_eq.mp hb)
    exact traps_ok _
  case byteGet =>
    obtain ⟨a, b, rfl, ha, hb⟩ := hasKinds_two h
    obtain ⟨data, rfl⟩ := exists_bytes (beq_iff_eq.mp ha)
    obtain ⟨n, rfl⟩ := exists_nat (beq_iff_eq.mp hb)
    exact traps_byteGet data n
  case utf8Decode =>
    obtain ⟨a, rfl, ha⟩ := hasKinds_one h
    obtain ⟨data, rfl⟩ := exists_bytes (beq_iff_eq.mp ha)
    exact traps_utf8Decode data
  case natFromStr =>
    obtain ⟨a, rfl, ha⟩ := hasKinds_one h
    obtain ⟨data, rfl⟩ := exists_str (beq_iff_eq.mp ha)
    exact traps_natFromStr data
  case byteLen =>
    obtain ⟨a, rfl, ha⟩ := hasKinds_one h
    obtain ⟨data, rfl⟩ := exists_bytes (beq_iff_eq.mp ha)
    exact traps_ok _
  case reverse | isDigit | isLetter | isWhitespace | utf8Encode =>
    obtain ⟨a, rfl, ha⟩ := hasKinds_one h
    obtain ⟨data, rfl⟩ := exists_str (beq_iff_eq.mp ha)
    exact traps_ok _
  case append =>
    obtain ⟨a, b, rfl, ha, _⟩ := hasKinds_two h
    obtain ⟨items, rfl⟩ := exists_array (beq_iff_eq.mp ha)
    exact traps_ok _
  case mapHas =>
    obtain ⟨a, b, rfl, ha, _⟩ := hasKinds_two h
    obtain ⟨items, rfl⟩ := exists_map (beq_iff_eq.mp ha)
    exact traps_ok _
  case mapGet | dollarMethodGet =>
    obtain ⟨a, b, rfl, ha, _⟩ := hasKinds_two h
    obtain ⟨items, rfl⟩ := exists_map (beq_iff_eq.mp ha)
    exact traps_mapGet items b
  case mapPut | dollarMethodPut =>
    obtain ⟨a, b, c, rfl, ha, _⟩ := hasKinds_three h
    obtain ⟨items, rfl⟩ := exists_map (beq_iff_eq.mp ha)
    exact traps_ok _
  case setHas | setAdd | dollarMethodAdd =>
    obtain ⟨a, b, rfl, ha, _⟩ := hasKinds_two h
    obtain ⟨items, rfl⟩ := exists_set (beq_iff_eq.mp ha)
    exact traps_ok _
  case dollarMethodHas =>
    obtain ⟨a, b, rfl, ha, _⟩ := hasKinds_two h
    simp only [or_eq_true, beq_iff_eq] at ha
    rcases ha with ha | ha
    · obtain ⟨items, rfl⟩ := exists_map ha
      exact traps_ok _
    · obtain ⟨items, rfl⟩ := exists_set ha
      exact traps_ok _

end Builtins

/-! ## All operations -/

section

variable {op : Operation} {values : List Value} {t : Trap}

theorem Operation.Typed.traps (h : op.Typed values) (hfit : op.misaligned values = false) :
    Traps op.fault (op.eval values) := by
  have hacc := h.accepts
  cases op with
  | unary code =>
    rcases values with _ | ⟨a, _ | ⟨b, values⟩⟩
    · cases hacc
    · exact traps_unary hacc
    · cases hacc
  | binary code =>
    rcases values with _ | ⟨a, _ | ⟨b, _ | ⟨c, values⟩⟩⟩
    · cases hacc
    · cases hacc
    · exact traps_binary hacc hfit
    · cases hacc
  | index =>
    rcases values with _ | ⟨a, _ | ⟨b, _ | ⟨c, values⟩⟩⟩
    · cases hacc
    · cases hacc
    · exact traps_index hacc
    · cases hacc
  | builtin b =>
    have hany : (signature b).any (fun tests => hasKinds tests values) = true := hacc
    cases hsig : signature b with
    | none =>
      rw [hsig] at hany
      cases hany
    | some tests =>
      rw [hsig] at hany
      exact traps_builtin hsig hany h.text

theorem Operation.eval_of_misaligned (h : op.misaligned values) :
    op.eval values = .error outOfMemory := by
  unfold misaligned at h
  split at h
  · rename_i code a b
    simp only [and_eq_true, or_eq_true, beq_iff_eq, decide_eq_true_eq, or_assoc] at h
    have hnone : decimalAlign a b = none := by
      rw [← Option.not_isSome_iff_eq_none, decimalAlign_isSome_iff]
      exact not_lt.mpr h.2
    show binaryValueClassified code (.dec a) (.dec b) = _
    rcases h.1 with rfl | rfl | rfl <;>
      simp [binaryValueClassified, rationalOperand, arithmeticBinary, decimalBinaryClassified,
        hnone]
  · cases h

/-- A trap on typed operands is a fault of the request exactly where the site says so. -/
theorem trap_fault_iff (h : op.Typed values) (ht : op.eval values = .error t) :
    t.fault = .request ↔ op.unclassified = false ∧ op.misaligned values = false := by
  cases hfit : op.misaligned values with
  | true =>
    cases ht.symm.trans (Operation.eval_of_misaligned hfit)
    exact iff_of_false VMFaultKind.noConfusion fun hand => Bool.noConfusion hand.2
  | false =>
    rw [h.traps hfit t ht, Operation.fault]
    cases op.unclassified <;> decide

end

end Panackelty.Vm
