import Panackelty.Compiler.StringCode

/-!
# Literals that the compiler writes itself

Guards and module emission write string literals into the tree, which are decoded, split and emitted
like those of a source file.  An escaped text decodes to the text (`decodeLoop_flatMap`); a literal
of a guard ends at each dollar sign, so none of its pieces can name a local
(`validationLiteral_pushes`). -/

namespace Panackelty.Compiler

open Bytecode List
open String (utf8EncodeChar)
open Vm (Heap Registers SameInstruction SameName Value)

/-- One escaped character. -/
def validationEscape (ch : Char) : List Char := if ch = '\\' ∨ ch = '"' then ['\\', ch] else [ch]

/-- The parts so far and one more. -/
def validationPart (parts : Option Expr) (escaped : List Char) : Expr :=
  match parts with
  | none => .string (quoted escaped)
  | some prior => .binary (Str.ascii "+") prior (.string (quoted escaped))

/-- The loop of `validation_literal` over the characters that are left. -/
def validationLoop : List Char → Option Expr → List Char → Expr
  | [], parts, escaped => validationPart parts escaped
  | ch :: value, parts, escaped =>
    if ch = '$' then validationLoop value
      (some (validationPart parts (escaped ++ validationEscape ch))) []
    else validationLoop value parts (escaped ++ validationEscape ch)

/-- `validation_literal`. -/
def validationLiteral (value : List Char) : Expr := validationLoop value none []

/-! ## Escaping -/

/-- An escape that is undone character by character is undone. -/
theorem decodeLoop_flatMap {escape : Char → List Char}
    (h : ∀ c rest, decodeLoop (encodeUtf8 (escape c) ++ rest) = utf8EncodeChar c ++ decodeLoop rest)
    (chars : List Char) : decodeLoop (encodeUtf8 (chars.flatMap escape)) = encodeUtf8 chars := by
  induction chars with
  | nil => rfl
  | cons c chars ih => rw [flatMap_cons, encodeUtf8_append, h, ih, encodeUtf8_cons]

theorem decodeLoop_char {c : Char} (h : c ≠ '\\') (rest : Bytes) :
    decodeLoop (encodeUtf8 [c] ++ rest) = utf8EncodeChar c ++ decodeLoop rest := by
  rw [encodeUtf8_cons, encodeUtf8_nil, append_nil]
  exact decodeLoop_append (not_mem_encode (by decide) h) rest

theorem decodeLoop_validationEscape (c : Char) (rest : Bytes) :
    decodeLoop (encodeUtf8 (validationEscape c) ++ rest) = utf8EncodeChar c ++ decodeLoop rest := by
  rw [validationEscape]
  split_ifs with h
  · rcases h with rfl | rfl <;> rfl
  · exact decodeLoop_char (fun hc => h (.inl hc)) rest

/-! ## Literals of guards -/

theorem splitLoop_none {l tail : Bytes} (h : (36 : UInt8) ∉ l) (htail : tail.length ≤ 1) (fuel : ℕ)
    (part : Bytes) : splitLoop fuel (l ++ tail) part = ([], part ++ (l ++ tail)) := by
  induction fuel generalizing l part with
  | zero => rfl
  | succ fuel ih =>
    cases l with
    | nil =>
      rcases tail with _ | ⟨b, _ | ⟨c, tail⟩⟩
      · rfl
      · rfl
      · simp at htail
    | cons b l =>
      rw [mem_cons, not_or] at h
      have hrest := ih h.2 (part ++ [b])
      rw [append_assoc] at hrest
      rw [cons_append]
      cases hnext : l ++ tail with
      | nil => rfl
      | cons c after =>
        rw [splitLoop, if_neg fun hb => h.1 hb.1.symm, ← hnext, hrest]
        rfl

/-- The code of the expression reads no local and pushes the text. -/
def Pushes (program : List Declaration) (expression : Expr) (text : Bytes) : Prop :=
  ∀ temporary offset, (∀ name, .loadInstruction name ∉
      (emitExpression program expression temporary offset).instructions) ∧
    ∀ {render : Value → Bytes} {code : List Vm.Instruction}, Forall₂ (SameInstruction SameName) code
        (emitExpression program expression temporary offset).instructions →
      ∀ rest r heap, runCode render (code ++ rest) r heap =
        runCode render rest (r.push (.str text)) heap

variable {program : List Declaration} {x y : Expr} {a b : Bytes}

theorem pushes_string {chars : List Char} {tail : Bytes} {token : Str}
    (htoken : decodeStringLiteral token = encodeUtf8 chars ++ tail) (h : '$' ∉ chars)
    (hvalid : utf8 tail) (htail : tail.length ≤ 1) :
    Pushes program (.string token) (encodeUtf8 chars ++ tail) := by
  have hdollar : (36 : UInt8) ∉ encodeUtf8 chars := by
    rw [encodeUtf8, mem_flatMap]
    rintro ⟨c, hc, hb⟩
    exact not_mem_encode (b := 36) (by decide) (ne_of_mem_of_not_mem hc h) hb
  intro temp off
  have hcode : emitExpression program (.string token) temp off =
      ⟨[.constInstruction (.stringConstant ⟨_, utf8_append (utf8_encodeUtf8 chars) hvalid⟩)],
        temp⟩ := by
    rw [emitExpression, emitStringExpression, htoken, splitInterpolatedString, splitLoop_none
      hdollar htail, cutText, dif_pos (utf8_append (utf8_encodeUtf8 chars) hvalid)]
    rfl
  rw [hcode]
  refine ⟨by simp, fun {render code} hsame rest r heap => ?_⟩
  obtain ⟨instr, _, hconst, hnil, rfl⟩ := forall₂_cons_right_iff.mp hsame
  cases hnil
  cases instr with
  | const constant =>
    cases constant with
    | text text =>
      rw [show text = encodeUtf8 chars ++ tail from hconst]
      rfl
    | _ => exact hconst.elim
  | _ => exact hconst.elim

theorem eq_zero_of_binaryOperator {code : ℕ} (h : Str.ascii "+" = Format.binaryOperator code) :
    code = 0 := by
  by_cases hcode : code ≤ 12
  · have heq := Format.binaryCode_binaryOperator hcode
    rw [← h] at heq
    exact heq.symm
  · rw [Format.binaryOperator] at h
    iterate 12 rw [if_neg (by omega)] at h
    exact absurd h (by decide)

theorem Pushes.plus (hx : Pushes program x a) (hy : Pushes program y b) :
    Pushes program (.binary (Str.ascii "+") x y) (a ++ b) := by
  intro temp off
  rw [emitExpression, if_neg (by decide), if_neg (by decide), if_neg (by decide)]
  simp only [emitThen, emitExpressionList, append_nil, append_assoc]
  have hx := hx temp off
  generalize emitExpression program x temp off = left at hx ⊢
  have hy := hy left.nextTemporary (off + left.instructions.length)
  generalize emitExpression program y _ _ = right at hy ⊢
  refine ⟨by simp [hx.1, hy.1], fun {render code} hcode rest r heap => ?_⟩
  have hleft := forall₂_take_append _ _ _ hcode
  have hrest := forall₂_drop_append _ _ _ hcode
  have hright := forall₂_take_append _ _ _ hrest
  obtain ⟨plus, _, hplus, hnil, hlast⟩ :=
    forall₂_cons_right_iff.mp (forall₂_drop_append _ _ _ hrest)
  cases hnil
  rw [← take_append_drop left.instructions.length code, append_assoc, hx.2 hleft, ← take_append_drop
    right.instructions.length (drop _ code), append_assoc, hy.2 hright, hlast]
  cases plus with
  | binary op =>
    rw [eq_zero_of_binaryOperator hplus]
    rfl
  | _ => exact hplus.elim

/-- The loop keeps that the parts push the text before the piece and that the piece has no dollar.
-/
theorem validationLoop_pushes (value : List Char) : ∀ {parts : Option Expr} {text : Bytes}
    {piece : List Char}, (∀ {escaped : List Char} {b : Bytes},
      Pushes program (.string (quoted escaped)) b →
        Pushes program (validationPart parts escaped) (text ++ b)) → '$' ∉ piece →
    Pushes program (validationLoop value parts (piece.flatMap validationEscape))
      (text ++ encodeUtf8 (piece ++ value)) := by
  have hdec (piece : List Char) : decodeStringLiteral (quoted (piece.flatMap validationEscape)) =
      encodeUtf8 piece := by
    rw [decodeStringLiteral_quoted, decodeLoop_flatMap decodeLoop_validationEscape]
  induction value with
  | nil =>
    intro parts text piece hparts hpiece
    rw [validationLoop, append_nil]
    refine hparts ?_
    rw [← append_nil (encodeUtf8 piece)]
    exact pushes_string (by rw [hdec, append_nil]) hpiece rfl (Nat.zero_le 1)
  | cons ch value ih =>
    intro parts text piece hparts hpiece
    have hescaped : piece.flatMap validationEscape ++ validationEscape ch =
        (piece ++ [ch]).flatMap validationEscape := by rw [flatMap_append, flatMap_singleton]
    rw [validationLoop, hescaped]
    split_ifs with hch
    · subst hch
      have hdollar : encodeUtf8 (piece ++ ['$']) = encodeUtf8 piece ++ [36] := encodeUtf8_append _ _
      have hpart := hparts (b := encodeUtf8 piece ++ [36]) (pushes_string (by rw [hdec, hdollar])
        hpiece rfl (Nat.le_refl 1))
      rw [← hdollar] at hpart
      have hrest := @ih (some _) _ [] hpart.plus not_mem_nil
      rwa [append_assoc, ← encodeUtf8_append, append_assoc] at hrest
    · have hrest := @ih _ _ (piece ++ [ch]) hparts (by simp [hpiece, Ne.symm hch])
      rwa [append_assoc] at hrest

/-- The literal of a guard reads no local, and its code pushes the text itself. -/
theorem validationLiteral_pushes (program : List Declaration) (value : List Char)
    (temporary offset : ℕ) : (∀ name, .loadInstruction name ∉
      (emitExpression program (validationLiteral value) temporary offset).instructions) ∧
    ∀ (render : Value → Bytes) (code : List Vm.Instruction) (r : Registers) (heap : Heap),
      Forall₂ (SameInstruction SameName) code
        (emitExpression program (validationLiteral value) temporary offset).instructions →
      runCode render code r heap = .ok (r.push (.str (encodeUtf8 value)), heap) := by
  obtain ⟨hload, hrun⟩ := @validationLoop_pushes program value none []
      [] id not_mem_nil temporary offset
  refine ⟨hload, fun render code r heap hcode => ?_⟩
  have h := @hrun render _ hcode [] r heap
  rwa [append_nil] at h

theorem validationLiteral_pushes_dollar :
    runCode (fun _ => []) [.const (.text [36]), .const (.text [34]), .binary 0] ⟨0, [], []⟩
      ⟨0, []⟩ =
      .ok (⟨0, [.str [36, 34]], []⟩, ⟨0, []⟩) := by
  refine (validationLiteral_pushes [] ['$', '"'] 0 0).2 _ _ ⟨0, [], []⟩ _ ?_
  exact .cons rfl (.cons rfl (.cons rfl .nil))

end Panackelty.Compiler
