import Panackelty.Compiler.Interpolation
import Panackelty.Vm.Operations
import Panackelty.Vm.WireAgreement

/-!
# What the code of a string computes

The code that the emitter makes for a string has no jumps, and the virtual machine runs it
instruction after instruction on what it has decoded (`SameInstruction`).  A literal with variables
loads the locals and assembles the string; the parts between them have become C strings, so a part
keeps its text exactly when there is no zero byte in it (`emitString_run_iff`). -/

namespace Panackelty.Compiler

open Bytecode List
open Vm (CString Heap Registers SameInstruction SameName Value)

variable {render : Value → Bytes} {heap : Heap} {code : List Vm.Instruction}

/-- The instructions of straight code, one after the other. -/
def runCode (render : Value → Bytes) : List Vm.Instruction → Registers → Heap →
    Except Vm.Trap (Registers × Heap)
  | [], r, heap => .ok (r, heap)
  | instruction :: code, r, heap =>
    match Vm.operate render instruction r heap with
    | .error trap => .error trap
    | .ok (r, heap) => runCode render code r heap

variable {items : List CString}

theorem length_interpolate_le {parts : List Str}
    (h : Forall₂ SameName items parts) (vals : List Value) :
    (Vm.interpolate render items vals).length ≤ (assembled render parts vals).length := by
  induction h generalizing vals with
  | nil => cases vals <;> exact le_rfl
  | @cons item part items parts hname _ ih =>
    have hitem : item.bytes.length ≤ part.bytes.length := by
      rw [hname]
      exact (takeWhile_sublist _).length_le
    cases vals with
    | nil =>
      rw [Vm.interpolate, assembled, length_append, length_append]
      exact Nat.add_le_add hitem (ih [])
    | cons value vals =>
      simp only [Vm.interpolate, assembled, length_append]
      exact Nat.add_le_add (Nat.add_le_add_right hitem _) (ih vals)

/-- A part that has lost its end is missed in the length of the string. -/
theorem interpolate_eq_iff {parts : List Str}
    (h : Forall₂ SameName items parts) (vals : List Value) :
    Vm.interpolate render items vals = assembled render parts vals ↔
      ∀ part ∈ parts, (0 : UInt8) ∉ part.bytes := by
  induction h generalizing vals with
  | nil => cases vals <;> simp [Vm.interpolate, assembled]
  | @cons item part items parts hname hnames ih =>
    have hcut : item.bytes ++ (vals.head?.elim [] render ++
          Vm.interpolate render items vals.tail) = part.bytes ++
          (vals.head?.elim [] render ++ assembled render parts vals.tail) ↔
        (0 : UInt8) ∉ part.bytes ∧ ∀ part ∈ parts, (0 : UInt8) ∉ part.bytes := by
      rw [← ih vals.tail, ← CString.bytes_ofBytes_iff, ← show item = _ from hname]
      constructor
      · intro heq
        have hlen := congrArg length heq
        have htail := @length_interpolate_le render _ _ hnames vals.tail
        have hitem : item.bytes <+: part.bytes := by
          rw [hname]
          exact takeWhile_prefix _
        simp only [length_append] at hlen
        have hsame := hitem.eq_of_length (Nat.le_antisymm hitem.length_le (by omega))
        rw [hsame, append_cancel_left_eq, append_cancel_left_eq] at heq
        exact ⟨hsame, heq⟩
      · rintro ⟨hsame, heq⟩
        rw [hsame, heq]
    rw [forall_mem_cons, ← hcut]
    cases vals <;> simp [Vm.interpolate, assembled]

theorem runCode_loads {names : List Str} {values : List Value} {r : Registers}
    (hcode : Forall₂ (SameInstruction SameName) code (names.map .loadInstruction))
    (hvals : Forall₂ (fun name value => r.localGet (.ofBytes name.bytes) = some value) names values)
    (rest : List Vm.Instruction) :
    runCode render (code ++ rest) r heap =
      runCode render rest { r with stack := values.reverse ++ r.stack } heap := by
  induction names generalizing code values r with
  | nil =>
    cases hvals
    cases hcode
    rfl
  | cons name names ih =>
    obtain ⟨value, values, hval, htail, rfl⟩ := forall₂_cons_left_iff.mp hvals
    obtain ⟨load, code, hload, hloads, rfl⟩ := forall₂_cons_right_iff.mp hcode
    cases load with
    | load other =>
      have hoth : other = CString.ofBytes name.bytes := hload
      have hpush := @ih code values (r.push value) hloads htail
      rw [cons_append, runCode, Vm.operate, hoth, hval]
      simp only [reverse_cons, append_assoc, singleton_append]
      exact hpush
    | _ => exact hload.elim

theorem runCode_interpolate {values : List Value} {r : Registers}
    (hcnt : items.length = values.length + 1) :
    runCode render [.interpolate items] { r with stack := values.reverse ++ r.stack } heap =
      .ok (r.push (.str (Vm.interpolate render items values)), heap) := by
  have hpop : Registers.popMany { r with stack := values.reverse ++ r.stack } (items.length - 1) =
      .ok (values, r) := by
    rw [hcnt, Nat.add_sub_cancel, Registers.popMany, if_neg (by simp), ← length_reverse,
      take_left, drop_left, reverse_reverse]
  simp only [runCode, Vm.operate, hpop]
  rfl

theorem length_parts {text : Bytes} (h : (splitInterpolatedString text).names ≠ []) :
    (splitInterpolatedString text).parts.length =
      (splitInterpolatedString text).names.length + 1 := by
  rw [splitInterpolatedString] at h ⊢
  generalize splitLoop text.length text [] = split at h ⊢
  by_cases hfound : split.1.isEmpty = true
  · simp only [hfound] at h
    exact absurd rfl h
  · simp only [if_neg hfound, length_append, length_map, length_singleton]

/-- The parts and names of a literal with variables join to its decoded text.  Its code assembles
the parts and the rendered values of the locals exactly when the text has no zero byte. -/
theorem emitString_run_iff (render : Value → Bytes) (inner : List Char) (temporary offset : ℕ)
    (code : List Vm.Instruction) (values : List Value) (r : Registers) (heap : Heap)
    (hnames : (splitInterpolatedString (decodeStringLiteral (quoted inner))).names ≠ [])
    (hcode : Forall₂ (SameInstruction SameName) code
      (emitStringExpression (quoted inner) temporary offset).instructions)
    (hvalues : Forall₂ (fun name value => r.localGet (.ofBytes name.bytes) = some value)
      (splitInterpolatedString (decodeStringLiteral (quoted inner))).names values) :
    assembled variableText (splitInterpolatedString (decodeStringLiteral (quoted inner))).parts
        (splitInterpolatedString (decodeStringLiteral (quoted inner))).names =
      decodeStringLiteral (quoted inner) ∧
    (runCode render code r heap = .ok (r.push (.str (assembled render
        (splitInterpolatedString (decodeStringLiteral (quoted inner))).parts values)), heap) ↔
      (0 : UInt8) ∉ decodeStringLiteral (quoted inner)) := by
  obtain ⟨hjoined, hzero⟩ := assembled_split (utf8_decodeStringLiteral inner) hnames
  refine ⟨hjoined, ?_⟩
  rw [hzero, not_exists]
  simp only [not_and]
  have hparts := length_parts hnames
  rw [emitStringExpression] at hcode
  simp only [List.isEmpty_iff, if_neg hnames] at hcode
  have hloads := forall₂_take_append _ _ _ hcode
  have hlast := forall₂_drop_append _ _ _ hcode
  rw [← take_append_drop (length _) code, runCode_loads hloads hvalues]
  obtain ⟨instruction, _, hins, hnil, hdrop⟩ := forall₂_cons_right_iff.mp hlast
  cases hnil
  rw [hdrop]
  cases instruction with
  | interpolate items =>
    have hitems : Forall₂ SameName items _ := hins
    rw [runCode_interpolate (by rw [hitems.length_eq, hparts, hvalues.length_eq]),
      ← @interpolate_eq_iff render _ _ hitems values]
    simp [Registers.push]
  | _ => exact hins.elim

/-- The characters of `a${x}`. -/
def plainInner : List Char := ['a', '$', '\x7b', 'x', '\x7d']

theorem emitString_run_iff_plain :
    runCode (fun _ => [98]) [.load (.ascii "x"), .interpolate [.ascii "a", .ascii ""]]
        ⟨0, [], [(.ascii "x", .bool true)]⟩ ⟨0, []⟩ =
      .ok ((⟨0, [], [(.ascii "x", .bool true)]⟩ : Registers).push (.str (assembled (fun _ => [98])
        (splitInterpolatedString (decodeStringLiteral (quoted plainInner))).parts
          [Value.bool true])), ⟨0, []⟩) := by
  refine (emitString_run_iff _ plainInner 0 0 _ _ _ _ (by decide +kernel) ?_ ?_).2.mpr
    (by decide +kernel)
  · exact .cons rfl (.cons (.cons rfl (.cons rfl .nil)) .nil)
  · exact .cons rfl .nil

/-- The token of `"a${x}"` with a zero byte after the letter. -/
def nulToken : Str := Str.ascii "\"a\x00$\x7bx\x7d\""

/-- The zero byte is lost: the string is the letter and the value. -/
theorem emitString_drops_nul : (emitStringExpression nulToken 0 0).instructions =
        [.loadInstruction (Str.ascii "x"), .interpolateInstruction
          [Str.ascii "a\x00", Str.ascii ""]] ∧
      Forall₂ (SameInstruction SameName) [.load (.ascii "x"), .interpolate [.ascii "a", .ascii ""]]
        [.loadInstruction (Str.ascii "x"), .interpolateInstruction
          [Str.ascii "a\x00", Str.ascii ""]] ∧
      runCode (fun _ => [98]) [.load (.ascii "x"), .interpolate [.ascii "a", .ascii ""]]
        ⟨0, [], [(.ascii "x", .bool true)]⟩ ⟨0, []⟩ =
          .ok (⟨0, [.str [97, 98]], [(.ascii "x", .bool true)]⟩, ⟨0, []⟩) ∧
      assembled (fun _ => [98]) [Str.ascii "a\x00", Str.ascii ""] [Value.bool true] =
        [97, 0, 98] := by
  refine ⟨by decide +kernel, ?_, rfl, rfl⟩
  exact .cons rfl (.cons (.cons rfl (.cons rfl .nil)) .nil)

end Panackelty.Compiler
