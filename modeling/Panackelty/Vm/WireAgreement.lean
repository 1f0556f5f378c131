import Panackelty.Bytecode.Reading
import Panackelty.Vm.Reading

/-!
# The two wire phases

The decoder of the virtual machine and the reading phase of the Panackelty decoder compute the same
parser, so they accept the same artifacts up to the order of functions.  What they return differs in
interpolated text, which the virtual machine keeps as C strings.

* `WireAgree`: agreement of the two on one artifact.
* `wireAgree_iff`: they agree exactly when no interpolated text contains a zero byte.
-/

namespace Panackelty.Vm

open Bytecode.Format
open CString (ascii)

open Bytecode (FunctionCode readProgram)
open Bytecode.ByteReader (SortedNames)

/-- Interpolated text is compared byte by byte. -/
def SameText (c : CString) (s : Str) : Prop := c.bytes = s.bytes

/-- The decoders both reject, or succeed with the same functions; the reading phase may reject a
table for the order of its functions, which the virtual machine checks later. -/
def WireAgree (data : Bytes) : Prop :=
  match decode data, readProgram data with
  | .ok p, .ok gs => List.Forall₂ (SameFunction SameText) p.functions gs
  | .ok p, .error _ => ∃ gs, functionTable.parse data = some (gs, []) ∧
      List.Forall₂ (SameFunction SameText) p.functions gs ∧ ¬ SortedNames gs
  | .error _, .ok _ => False
  | .error _, .error _ => True

/-- No interpolated text of the instruction contains a zero byte. -/
def PartsWithoutNul (i : Bytecode.Instruction) : Prop :=
  ∀ parts, i = .interpolateInstruction parts → ∀ part ∈ parts, (0 : UInt8) ∉ part.bytes

/-- Related lists are related in a second way exactly when the right side has a property. -/
theorem forall₂_iff_of_forall₂ {α β : Type} {R S : α → β → Prop} {P : β → Prop}
    (h : ∀ a b, R a b → (S a b ↔ P b)) {as : List α} {bs : List β} (hR : List.Forall₂ R as bs) :
    List.Forall₂ S as bs ↔ ∀ b ∈ bs, P b := by
  induction hR with
  | nil => simp
  | cons hab _ ih => rw [List.forall₂_cons, List.forall_mem_cons, ih, h _ _ hab]

theorem sameText_iff {c : CString} {s : Str} (h : SameName c s) :
    SameText c s ↔ (0 : UInt8) ∉ s.bytes := by
  rw [SameText, h]
  exact CString.bytes_ofBytes_iff

theorem sameInstruction_sameText_iff {i : Instruction} {j : Bytecode.Instruction}
    (h : SameInstruction SameName i j) : SameInstruction SameText i j ↔ PartsWithoutNul j := by
  by_cases hparts : ∃ parts, j = .interpolateInstruction parts
  · obtain ⟨parts, rfl⟩ := hparts
    cases i with
    | interpolate items =>
      have hnames : List.Forall₂ SameName items parts := h
      have hitems : List.Forall₂ SameText items parts ↔ _ :=
        forall₂_iff_of_forall₂ (fun c s hname => @sameText_iff c s hname) hnames
      refine hitems.trans ⟨fun hall parts' heq => ?_, fun hall => hall parts rfl⟩
      cases heq
      exact hall
    | _ => exact h.elim
  · -- only interpolation has operands that are compared by their text
    have hsame : SameInstruction SameText i j := by
      cases i <;> cases j <;> first | exact h | exact absurd ⟨_, rfl⟩ hparts
    exact iff_of_true hsame fun parts hj => absurd ⟨parts, hj⟩ hparts

theorem sameFunction_sameText_iff {f : Function} {g : FunctionCode}
    (h : SameFunction SameName f g) :
    SameFunction SameText f g ↔ ∀ i ∈ g.instructions, PartsWithoutNul i := by
  have hins := forall₂_iff_of_forall₂ (fun i j hij => @sameInstruction_sameText_iff i j hij) h.ins
  exact ⟨fun hsame => hins.mp hsame.ins, fun hall =>
    ⟨h.name, h.pure, h.isAsync, h.params, hins.mpr hall⟩⟩

theorem decoded_sameText_iff {fs : List Function} {gs : List FunctionCode}
    (h : List.Forall₂ Decoder.Decoded fs gs) : List.Forall₂ (SameFunction SameText) fs gs ↔
      ∀ g ∈ gs, ∀ i ∈ g.instructions, PartsWithoutNul i :=
  forall₂_iff_of_forall₂ (fun f g hfg => @sameFunction_sameText_iff f g hfg.1) h

/-- The wire phases agree exactly on the artifacts that no function table accepts and on those
whose interpolated texts have no zero byte. -/
theorem wireAgree_iff (data : Bytes) : WireAgree data ↔ (data.length ≤ 16777216 → ∀ gs,
      functionTable.parse data = some (gs, []) →
        ∀ g ∈ gs, ∀ i ∈ g.instructions, PartsWithoutNul i) := by
  rw [WireAgree]
  cases hdec : decode data with
  | error e =>
    -- the reading phase rejects too, and there is no table
    have hnone : data.length ≤ 16777216 → ∀ gs, functionTable.parse data ≠ some (gs, []) := by
      intro hsize gs hprs
      obtain ⟨functions, hok, _⟩ := decode_of_parse hsize hprs
      cases hdec.symm.trans hok
    cases hread : readProgram data with
    | ok gs =>
      obtain ⟨hsize, hprs, _⟩ := Bytecode.readProgram_eq_ok_iff.mp hread
      exact absurd hprs (hnone hsize gs)
    | error _ => exact iff_of_true trivial fun hsize gs hprs => absurd hprs (hnone hsize gs)
  | ok p =>
    obtain ⟨hsize, _, gs, hprs, hdecoded⟩ := parse_of_decode hdec
    have hcond : (data.length ≤ 16777216 → ∀ gs, functionTable.parse data = some (gs, []) →
          ∀ g ∈ gs, ∀ i ∈ g.instructions, PartsWithoutNul i) ↔
        ∀ g ∈ gs, ∀ i ∈ g.instructions, PartsWithoutNul i := by
      refine ⟨fun hall => hall hsize gs hprs, fun hall _ gs' hprs' => ?_⟩
      cases hprs.symm.trans hprs'
      exact hall
    rw [hcond, ← decoded_sameText_iff hdecoded]
    cases hread : readProgram data with
    | ok gs' =>
      have hprs' := (Bytecode.readProgram_eq_ok_iff.mp hread).2.1
      cases hprs.symm.trans hprs'
      exact Iff.rfl
    | error e =>
      have hunsorted : ¬ SortedNames gs := fun hsort => by
        rw [Bytecode.readProgram_eq_ok_iff.mpr ⟨hsize, hprs, hsort⟩] at hread
        cases hread
      constructor
      · rintro ⟨gs', hprs', hsame, _⟩
        cases hprs.symm.trans hprs'
        exact hsame
      · exact fun hsame => ⟨gs, hprs, hsame, hunsorted⟩

/-- One function that interpolates the three bytes `a`, zero, `b`. -/
def nulArtifact : Bytes :=
  magic ++ [0, 9, 0, 1, 0, 4] ++ Str.asciiBytes "main" ++
    [0, 0, 0, 0, 0, 1, 9, 0, 1, 0, 0, 0, 3, 97, 0, 98]

/-- The virtual machine keeps the first byte of the text and the Panackelty decoder all three. -/
theorem wireAgree_fails_nulArtifact :
    decode nulArtifact = .ok ⟨[⟨ascii "main", false, false, false, [],
        [.interpolate [ascii "a"]]⟩], false⟩ ∧
      readProgram nulArtifact = .ok [⟨Str.ascii "main", [], false, false,
        [.interpolateInstruction [⟨[97, 0, 98], rfl⟩]]⟩] ∧
      ¬ WireAgree nulArtifact := by
  have hdec : decode nulArtifact = .ok ⟨[⟨ascii "main", false, false, false, [],
      [.interpolate [ascii "a"]]⟩], false⟩ := by decide +kernel
  have hread : readProgram nulArtifact = .ok [⟨Str.ascii "main", [], false, false,
      [.interpolateInstruction [⟨[97, 0, 98], rfl⟩]]⟩] := by decide +kernel
  refine ⟨hdec, hread, fun h => ?_⟩
  rw [WireAgree, hdec, hread] at h
  have hitems : List.Forall₂ SameText [ascii "a"] [⟨[97, 0, 98], rfl⟩] :=
    (List.forall₂_cons.mp (List.forall₂_cons.mp h).1.ins).1
  have htext : (ascii "a").bytes = [97, 0, 98] := (List.forall₂_cons.mp hitems).1
  revert htext
  decide

end Panackelty.Vm
