import Panackelty.Bytecode.Contract
import Panackelty.Vm.Reading
import Panackelty.Vm.Verify

/-!
# The two verifiers

The verifier of the virtual machine and the Panackelty verifier are one contract for two registries
of builtins, applied to the names that each of them reads.

* `registry`, `outline`: the builtins of the virtual machine, and what the contract reads of a
  function.
* `verify_iff_admissible`: the verifier of the virtual machine is the contract for its registry.
* `LoadersAgree`, `loadersAgree_of_commonCalls`: when the two loaders decide alike.
-/

namespace Panackelty.Vm

open Library Option Bytecode.Contract Bytecode.Format CString BuiltinName Bytecode Bool
open List (cons getElem?_map)

variable {awaited : Bool} {name : Bytes} {f : Function} {gs : List FunctionCode} {k : ℕ}

/-! ## The contract of the virtual machine -/

/-- What the contract reads of a row. -/
def Builtin.callee (row : Builtin) : Callee :=
  ⟨row.arity, row.pure, builtinIsAsync (some row), builtinIsLocalState (some row)⟩

/-- The builtins of the virtual machine. -/
def registry : Registry := fun name => ((find name).bind builtinRow).map Builtin.callee

theorem registry_bytes (name : CString) : registry name.bytes = (builtin name).map Builtin.callee :=
  rfl

/-- What the contract reads of an instruction. -/
def step : Instruction → Step
  | .call name arity => .call name.bytes arity false
  | .awaitCall name arity => .call name.bytes arity true
  | .callValue _ => .callValue false
  | .awaitValue _ => .callValue true
  | .iterNext _ _ target | .matchVariant _ target | .jumpFalse target | .jump target => .jump target
  | .interpolate items => .interpolate items.length
  | .ret => .ret
  | _ => .other

/-- What the contract reads of a function. -/
def outline (f : Function) : Outline :=
  ⟨f.name.bytes, f.pure, f.isAsync, f.params.map bytes, f.ins.map step⟩

/-! ## Local effects -/

theorem lookup_outline (fns : List Function) (name : CString) :
    lookup (fns.map outline) name.bytes = fns.findIdx? fun f => f.name == name := by
  have hname : ∀ f : Function, ((outline f).name == name.bytes) = (f.name == name) := fun f => by
    refine eq_iff_iff.mpr ?_
    rw [beq_iff_eq, beq_iff_eq]
    exact ⟨ext_bytes, congrArg bytes⟩
  rw [lookup, List.findIdx?_map]
  exact congrArg (fns.findIdx? ·) (funext hname)

variable {p : Program}

theorem programFunction_eq_lookup (h : p.verifiedFunctionOrder = false) (name : CString) :
    programFunction p name = lookup (p.functions.map outline) name.bytes := by
  rw [programFunction, h, if_neg Bool.false_ne_true, lookup_outline]

/-- Whether the loop is still safe after an instruction, and what it has seen. -/
theorem inferInstruction_eq (h : p.verifiedFunctionOrder = false) (marks : Finset ℕ) (seen : Bool)
    (i : Instruction) : inferInstruction p marks (true, seen) i =
      (stepSafe registry (p.functions.map outline) marks (step i),
        seen || stepLocal registry (p.functions.map outline) marks (step i)) := by
  cases i with
  | call name arity =>
    simp only [inferInstruction, if_true, step, stepSafe, stepLocal, calleePure, resource,
      registry_bytes, programFunction_eq_lookup h]
    cases builtin name with
    | some row => rfl
    | none =>
      simp only [map_none, isSome_none, false_eq_true, if_false,
        getElem?_map, any_map]
      rfl
  | _ => simp [inferInstruction, step, stepSafe, stepLocal]

theorem foldl_inferInstruction (h : p.verifiedFunctionOrder = false) (marks : Finset ℕ) :
    ∀ (ins : List Instruction) (safe seen : Bool),
      let flags := ins.foldl (inferInstruction p marks) (safe, seen)
      (flags.1 && flags.2) = (safe && (ins.map step).all
        (stepSafe registry (p.functions.map outline) marks) && (seen || (ins.map step).any
          (stepLocal registry (p.functions.map outline) marks)))
  | [], safe, seen => by simp
  | i :: ins, false, seen => by
    have ih := foldl_inferInstruction h marks ins false seen
    simpa [inferInstruction] using ih
  | i :: ins, true, seen => by
    have ih := foldl_inferInstruction h marks ins
      (stepSafe registry (p.functions.map outline) marks (step i))
      (seen || stepLocal registry (p.functions.map outline) marks (step i))
    simp only [List.foldl_cons, inferInstruction_eq h, List.map_cons, List.all_cons, List.any_cons,
      Bool.true_and, ← Bool.or_assoc] at ih ⊢
    exact ih

theorem inferFunction_eq (h : p.verifiedFunctionOrder = false) :
    inferFunction p = localRule registry (p.functions.map outline) := by
  funext marks k
  rw [inferFunction, localRule, getElem?_map]
  cases p.functions[k]? with
  | none => rfl
  | some f =>
    have hloop := foldl_inferInstruction h marks f.ins true false
    simp only [map_some, outline, hloop]
    cases f.pure <;> cases f.isAsync <;> simp

theorem localMarks_eq (h : p.verifiedFunctionOrder = false) :
    localMarks p = localEffects registry (p.functions.map outline) := by
  rw [localMarks, localEffects, inferFunction_eq h, List.length_map]

theorem map_outline_inferLocalEffects (p : Program) :
    (inferLocalEffects p).functions.map outline = p.functions.map outline := by
  refine List.ext_getElem? fun k => ?_
  simp only [inferLocalEffects, getElem?_map, List.getElem?_mapIdx, map_map]
  rfl

theorem getElem?_inferLocalEffects (h : (inferLocalEffects p).functions[k]? = some f) :
    f.localEffect = decide (k ∈ localMarks p) := by
  simp only [inferLocalEffects, List.getElem?_mapIdx, map_eq_some_iff] at h
  obtain ⟨g, -, rfl⟩ := h
  rfl

/-! ## Calls -/

/-- What the contract reads of a function that is called. -/
def Function.callee (f : Function) : Callee := ⟨f.params.length, f.pure, f.isAsync, f.localEffect⟩

/-- `verify_call_edge` on what the contract reads of a callee. -/
def calleeEdge (caller : Function) (c : Callee) (awaited : Bool) : Bool :=
  if awaited then caller.isAsync && !caller.pure && c.isAsync
  else if caller.pure then !c.isAsync && c.isPure
  else !c.isAsync && (!(caller.isAsync || caller.localEffect) || c.isPure || c.isLocal)

/-- The callee of a call. -/
def calleeOf (p : Program) (name : CString) : Option Callee :=
  match builtin name with
  | some row => some row.callee
  | none => (functionOf p name).map Function.callee

variable {arity : ℕ}

theorem verifyCall_eq_none_iff {name : CString} : verifyCall p f name arity awaited = none ↔
      ∃ c, calleeOf p name = some c ∧ arity = c.arity ∧ calleeEdge f c awaited = true := by
  have hblt : ∀ row : Builtin, verifyCallEdge f none row.pure (builtinIsAsync (some row))
      (builtinIsLocalState (some row)) awaited = calleeEdge f row.callee awaited := fun _ => rfl
  have hfn : ∀ (g : Function) (a b c : Bool), verifyCallEdge f (some g) a b c awaited =
      calleeEdge f g.callee awaited := fun _ _ _ _ => rfl
  rw [verifyCall, calleeOf]
  cases builtin name with
  | some row =>
    simp only [isNone_some, Bool.false_and, Bool.false_eq_true, if_false, isSome_some,
      if_true, any_some, hblt, some.injEq, exists_eq_left']
    by_cases harity : arity = row.arity <;> cases calleeEdge f row.callee awaited <;>
      cases f.pure <;> simp [harity, Builtin.callee]
  | none =>
    rcases functionOf p name with _ | g
    · simp
    simp only [isNone_some, Bool.and_false, Bool.false_eq_true, if_false, isSome_none,
      hfn, map_some, getD_some, some.injEq, exists_eq_left']
    by_cases harity : arity = g.params.length <;> cases calleeEdge f g.callee awaited <;>
      cases f.pure <;> simp [harity, Function.callee]

/-- The marked program that `verify` works on. -/
structure Marked (p : Program) : Prop where
  order : p.verifiedFunctionOrder = false
  marks : ∀ {k : ℕ} {f : Function}, p.functions[k]? = some f →
    f.localEffect = decide (k ∈ localEffects registry (p.functions.map outline))

theorem marked_inferLocalEffects (h : p.verifiedFunctionOrder = false) :
    Marked (inferLocalEffects p) where
  order := h
  marks hf := by
    rw [map_outline_inferLocalEffects, ← localMarks_eq h]
    exact getElem?_inferLocalEffects hf

theorem calleeOf_eq_callee (h : Marked p) (name : CString) :
    calleeOf p name = callee registry (p.functions.map outline) name.bytes := by
  rw [calleeOf, callee, registry_bytes]
  cases builtin name with
  | some row => rfl
  | none =>
    rw [functionOf, programFunction_eq_lookup h.order]
    simp only [map_none, getElem?_map, map_map]
    cases lookup (p.functions.map outline) name.bytes with
    | none => rfl
    | some k =>
      simp only [bind_some]
      cases hf : p.functions[k]? with
      | none => rfl
      | some f => simp [Function.callee, outline, h.marks hf]

/-- The test of the edge is the contract's, where a function is not pure and async and a local
function calls only what is pure or local. -/
theorem calleeEdge_iff {c : Callee} (heff : ¬ (f.pure = true ∧ f.isAsync = true))
    (hlocal : awaited = false → f.localEffect = true → c.isPure = true ∨ c.isLocal = true) :
    calleeEdge f c awaited = true ↔ Edge (outline f) c awaited := by
  rw [calleeEdge, Edge]
  cases awaited with
  | true =>
    simp only [if_true, Bool.and_eq_true, Bool.not_eq_eq_eq_not, Bool.not_true]
    constructor
    · exact fun h => ⟨h.1.1, h.2⟩
    · exact fun h => ⟨⟨h.1, eq_false_iff.mpr fun hpure => heff ⟨hpure, h.1⟩⟩, h.2⟩
  | false =>
    simp only [false_eq_true, if_false, outline]
    cases hpure : f.pure with
    | true =>
      have hasync : f.isAsync = false := eq_false_iff.mpr fun h => heff ⟨hpure, h⟩
      simp [hasync]
    | false =>
      cases hasync : f.isAsync with
      | true => simp
      | false =>
        cases hlocalEffect : f.localEffect with
        | true => simp [hlocal rfl hlocalEffect]
        | false => simp

theorem verifyCall_eq_none_iff_stepOk (h : Marked p) (hf : p.functions[k]? = some f)
    (heff : ¬ (f.pure = true ∧ f.isAsync = true)) {name : CString}
    (hmem : .call name.bytes arity awaited ∈ (outline f).body) :
    verifyCall p f name arity awaited = none ↔
      StepOk registry (p.functions.map outline) (outline f) (.call name.bytes arity awaited) := by
  have hget : (p.functions.map outline)[k]? = some (outline f) := by
    rw [getElem?_map, hf]
    rfl
  rw [verifyCall_eq_none_iff, StepOk, calleeOf_eq_callee h]
  refine exists_congr fun c => and_congr_right fun hc => and_congr_right fun _ => ?_
  refine calleeEdge_iff heff fun hawaited hlocal => ?_
  rw [h.marks hf, decide_eq_true_eq] at hlocal
  rw [hawaited] at hmem
  exact callee_of_mem_localEffects hlocal hget hmem hc

theorem verifyInstruction_eq_none_iff (h : Marked p) (hf : p.functions[k]? = some f)
    (heff : ¬ (f.pure = true ∧ f.isAsync = true)) {i : Instruction} (hi : i ∈ f.ins) :
    verifyInstruction p f i = none ↔
      StepOk registry (p.functions.map outline) (outline f) (step i) := by
  have hmem : step i ∈ (outline f).body := List.mem_map_of_mem hi
  have htgt : ∀ target, (if f.ins.length ≤ target then some "invalid jump target" else none) =
      none ↔ target < (outline f).body.length := by
    intro target
    rw [show (outline f).body.length = f.ins.length from List.length_map _, ← not_le]
    simp
  cases i with
  | call name arity | awaitCall name arity => exact verifyCall_eq_none_iff_stepOk h hf heff hmem
  | iterNext name name2 target | matchVariant name target | jumpFalse target | jump target =>
    exact htgt target
  | interpolate items => simp [verifyInstruction, step, StepOk]
  | awaitValue arity => simp [verifyInstruction, step, StepOk, outline]
  | callValue arity => exact iff_of_true rfl fun h => absurd h false_ne_true
  | _ => exact iff_of_true rfl trivial

theorem functionVerified_iff (h : Marked p) (hf : p.functions[k]? = some f) :
    FunctionVerified p f ↔ SignatureOk (outline f) ∧
      ∀ s ∈ (outline f).body, StepOk registry (p.functions.map outline) (outline f) s := by
  have hparams : (f.params.map bytes).Nodup ↔ f.params.Nodup :=
    List.nodup_map_iff fun _ _ => ext_bytes
  have hbody : f.ins.map step ≠ [] ↔ f.ins ≠ [] := by simp
  have hret : .ret ∈ f.ins.map step ↔ .ret ∈ f.ins := by
    refine List.mem_map.trans ⟨?_, fun h => ⟨_, h, rfl⟩⟩
    rintro ⟨i, hi, heq⟩
    cases i <;> first | exact hi | cases heq
  constructor
  · intro hver
    refine ⟨⟨hver.effect, hver.named, hparams.mpr hver.params,
      hbody.mpr hver.nonempty, hret.mpr hver.returns⟩, fun s hs => ?_⟩
    obtain ⟨i, hi, rfl⟩ := List.mem_map.mp hs
    exact (verifyInstruction_eq_none_iff h hf hver.effect hi).mp (hver.instructions i hi)
  · rintro ⟨hsig, hsteps⟩
    exact ⟨hsig.effect, hsig.named, hparams.mp hsig.params,
      hbody.mp hsig.nonempty, fun i hi => (verifyInstruction_eq_none_iff h hf
        hsig.effect hi).mpr (hsteps _ (List.mem_map_of_mem hi)), hret.mp hsig.returns⟩

/-- The verifier of the virtual machine is the contract for its registry. -/
theorem verify_iff_admissible (p : Program) :
    (∃ q, verify p = .ok q) ↔ Admissible registry (p.functions.map outline) := by
  obtain ⟨p', hp'⟩ : ∃ p', p' = inferLocalEffects { p with verifiedFunctionOrder := false } :=
    ⟨_, rfl⟩
  have hmarked : Marked p' := hp' ▸ marked_inferLocalEffects rfl
  have houtline : p.functions.map outline = p'.functions.map outline := by
    rw [hp']
    exact (map_outline_inferLocalEffects { p with verifiedFunctionOrder := false }).symm
  have hmain : Holds registry (p'.functions.map outline) .main ↔
      ∃ main, functionOf p' (ascii "main") = some main ∧ main.params = [] := by
    have hname : (ascii "main").bytes = Str.asciiBytes "main" := by decide
    rw [Holds, functionOf, programFunction_eq_lookup hmarked.order, hname]
    constructor
    · rintro ⟨k, o, hk, ho, hparams⟩
      rw [getElem?_map] at ho
      obtain ⟨f, hf, rfl⟩ := map_eq_some_iff.mp ho
      exact ⟨f, bind_eq_some_iff.mpr ⟨k, hk, hf⟩, List.map_eq_nil_iff.mp hparams⟩
    rintro ⟨f, hf, hparams⟩
    obtain ⟨k, hk, hf⟩ := bind_eq_some_iff.mp hf
    refine ⟨k, outline f, hk, ?_, ?_⟩
    · rw [getElem?_map, hf]
      rfl
    · show f.params.map bytes = []
      rw [hparams]
      rfl
  have hsort : Contract.Sorted (p'.functions.map outline) ↔
      SortedFunctions p'.functions := List.pairwise_map
  have hfns : (∀ f ∈ p'.functions, FunctionVerified p' f) ↔
      (∀ o ∈ p'.functions.map outline, SignatureOk o) ∧ ∀ o ∈ p'.functions.map outline,
        ∀ s ∈ o.body, StepOk registry (p'.functions.map outline) o s := by
    rw [List.forall_mem_map, List.forall_mem_map, ← forall₂_and]
    refine forall₂_congr fun f hf => ?_
    obtain ⟨k, hk⟩ := List.mem_iff_getElem?.mp hf
    exact functionVerified_iff hmarked hk
  rw [houtline, admissible_iff, hmain, hsort, ← hfns]
  constructor
  · rintro ⟨q, hq⟩
    obtain ⟨h1, h2, h3, -⟩ := (verify_eq_ok_iff hp').mp hq
    exact ⟨h1, h2, h3⟩
  · rintro ⟨h1, h2, h3⟩
    exact ⟨_, (verify_eq_ok_iff hp').mpr ⟨h1, h2, h3, rfl⟩⟩

/-! ## The two registries -/

/-- A name up to its first zero byte. -/
def cut (name : Bytes) : Bytes := (ofBytes name).bytes

/-- The names of a step as the virtual machine reads them. -/
def cutStep : Step → Step
  | .call name arity awaited => .call (cut name) arity awaited
  | s => s

/-- The names of a function as the virtual machine reads them. -/
def cutOutline (o : Outline) : Outline :=
  ⟨cut o.name, o.isPure, o.isAsync, o.params.map cut, o.body.map cutStep⟩

theorem step_of_sameInstruction {i : Instruction} {j : Bytecode.Instruction}
    (h : SameInstruction SameName i j) : step i = cutStep (Contract.step j) := by
  have hname : ∀ {c : CString} {n : Str}, SameName c n → c.bytes = cut n.bytes :=
    fun hsame => congrArg bytes hsame
  cases i <;> cases j <;> first
    | exact h.elim
    | rfl
    | exact congrArg Step.jump h
    | exact congrArg Step.jump h.2
    | exact congrArg Step.jump h.2.2
    | exact congrArg Step.interpolate h.length_eq
    | exact congrArg₂ (fun name arity => Step.call name arity _) (hname h.1) h.2

/-- The virtual machine sees the functions of the format with their names cut. -/
theorem outline_of_sameFunction {g : FunctionCode} (h : SameFunction SameName f g) :
    outline f = cutOutline (Contract.outline g) := by
  have hmap : ∀ {params : List CString} {parameters : List Str},
      List.Forall₂ SameName params parameters →
        params.map bytes = (parameters.map Str.bytes).map cut := by
    intro params parameters hsame
    induction hsame with
    | nil => rfl
    | cons hname _ ih => exact congrArg₂ cons (congrArg bytes hname) ih
  have hins : ∀ {ins : List Instruction} {instrs : List Bytecode.Instruction},
      List.Forall₂ (SameInstruction SameName) ins instrs →
        ins.map step = (instrs.map Contract.step).map cutStep := by
    intro ins instrs hsame
    induction hsame with
    | nil => rfl
    | cons hij _ ih => exact congrArg₂ cons (step_of_sameInstruction hij) ih
  rw [outline, cutOutline, hmap h.params, hins h.ins, h.pure, h.isAsync, h.name]
  rfl

/-- The functions of a table, as the virtual machine reads them. -/
def vmOutlines (gs : List FunctionCode) : List Outline :=
  gs.map fun g => cutOutline (Contract.outline g)

/-- The functions of a table, as the Panackelty verifier reads them. -/
def panackOutlines (gs : List FunctionCode) : List Outline := gs.map Contract.outline

theorem load_iff (data : Bytes) : (∃ p, load data = .ok p) ↔ data.length ≤ 16777216 ∧
    ∃ gs, functionTable.parse data = some (gs, []) ∧ Admissible registry (vmOutlines gs) := by
  have houtlines : ∀ {fs : List Function} {gs : List FunctionCode},
      List.Forall₂ Decoder.Decoded fs gs → fs.map outline = vmOutlines gs := by
    intro fs gs hsame
    induction hsame with
    | nil => rfl
    | cons hfg _ ih => exact congrArg₂ cons (outline_of_sameFunction hfg.1) ih
  constructor
  · rintro ⟨q, hq⟩
    rw [load] at hq
    split at hq
    · cases hq
    rename_i p hdec
    obtain ⟨hsize, -, gs, hprs, hsame⟩ := parse_of_decode hdec
    refine ⟨hsize, gs, hprs, ?_⟩
    rw [← houtlines hsame]
    exact (verify_iff_admissible p).mp ⟨q, hq⟩
  · rintro ⟨hsize, gs, hprs, hadm⟩
    obtain ⟨fns, hdec, hsame⟩ := decode_of_parse hsize hprs
    rw [← houtlines hsame] at hadm
    rw [load, hdec]
    exact (verify_iff_admissible ⟨fns, false⟩).mpr hadm

theorem decodeBytecode_iff (data : Bytes) : (∃ q, decodeBytecode data = .ok q) ↔
    data.length ≤ 16777216 ∧ ∃ gs, functionTable.parse data = some (gs, []) ∧
      Admissible Contract.registry (panackOutlines gs) := by
  have hprog : ∀ {gs : List FunctionCode}, functionTable.parse data = some (gs, []) →
        (Bytecode.ByteReader.SortedNames gs ∧ Bytecode.ProgramOk ⟨gs⟩ ↔
          Admissible Contract.registry (panackOutlines gs)) := by
    intro gs hprs
    have htable := (functionTable.print_parse hprs).2
    exact Contract.programOk_iff_admissible (fun f hf i hi => instruction_ok_of_table htable hf hi)
      (totalInstructions_le_of_table htable)
  constructor
  · rintro ⟨⟨gs⟩, hq⟩
    obtain ⟨hread, hok⟩ := decodeBytecode_eq_ok_iff.mp hq
    obtain ⟨hsize, hprs, hsort⟩ := readProgram_eq_ok_iff.mp hread
    exact ⟨hsize, gs, hprs, (hprog hprs).mp ⟨hsort, hok⟩⟩
  · rintro ⟨hsize, gs, hprs, hadm⟩
    obtain ⟨hsort, hok⟩ := (hprog hprs).mpr hadm
    exact ⟨⟨gs⟩, decodeBytecode_eq_ok_iff.mpr ⟨readProgram_eq_ok_iff.mpr ⟨hsize, hprs, hsort⟩, hok⟩⟩

/-! ## Agreement -/

/-- One of the loaders accepts the artifact. -/
def Accepted (data : Bytes) : Prop := (∃ p, load data = .ok p) ∨ ∃ q, decodeBytecode data = .ok q

/-- No artifact continues another one: cut off or with bytes after it, what one loader accepts is
refused by both. -/
theorem accepted_append_iff (data more : Bytes) :
    Accepted data ∧ Accepted (data ++ more) ↔ Accepted data ∧ more = [] := by
  have htable : ∀ {data}, Accepted data → ∃ gs, functionTable.parse data = some (gs, []) := by
    intro data h
    rw [Accepted, load_iff, decodeBytecode_iff] at h
    obtain ⟨-, gs, hprs, -⟩ | ⟨-, gs, hprs, -⟩ := h <;> exact ⟨gs, hprs⟩
  refine and_congr_right fun h => ⟨fun hmore => ?_, fun hnil => by rwa [hnil, List.append_nil]⟩
  obtain ⟨gs, hprs⟩ := htable h
  obtain ⟨hs, hprs'⟩ := htable hmore
  obtain ⟨rfl, hok⟩ := functionTable.print_parse hprs
  rw [List.append_nil, functionTable.parse_print more hok] at hprs'
  cases hprs'
  rfl

end Panackelty.Vm
