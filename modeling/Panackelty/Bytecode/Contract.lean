import Panackelty.Bytecode.RoundTrip
import Panackelty.Library.Keyed
import Panackelty.Library.Marking

/-!
# The verification contract

What a verifier of version 9 bytecode checks, for any registry of builtins.  A program is reduced to
the outline that the contract reads; each check of the contract is a value of `Check`, so that two
verifiers can be compared check by check.

* `localEffects`: the functions that only change local state, as the least set closed under the
  rule.
* `Holds`, `Admissible`: one check, and all of them.
* `programOk_iff_admissible`: the Panackelty verifier is the contract for its registry.
-/

namespace Panackelty.Bytecode.Contract

open Library List Str Format
open Option (bind_eq_some_iff map_eq_some_iff some)

variable {name : Bytes} {c : Callee} {gs : List FunctionCode} {marks marks' : Finset ℕ}
  {f : Outline} {k : ℕ}

/-- What the contract reads of an instruction. -/
inductive Step where
  | call (name : Bytes) (arity : ℕ) (awaited : Bool)
  | callValue (awaited : Bool)
  | jump (target : ℕ)
  | interpolate (count : ℕ)
  | ret
  | other
  deriving DecidableEq

/-- What the contract reads of a function. -/
structure Outline where
  name : Bytes
  isPure : Bool
  isAsync : Bool
  params : List Bytes
  body : List Step
  deriving DecidableEq

/-- What a call has to know of its callee. -/
structure Callee where
  arity : ℕ
  isPure : Bool
  isAsync : Bool
  isLocal : Bool
  deriving DecidableEq

/-- The builtins of a verifier. -/
abbrev Registry := Bytes → Option Callee

variable (R : Registry) (fs : List Outline)

/-- The first function of a name. -/
def lookup (name : Bytes) : Option ℕ := fs.findIdx? fun f => f.name == name

/-! ## Local effects -/

/-- The callee is pure; a builtin hides a function of its name. -/
def calleePure (name : Bytes) : Bool :=
  match R name with
  | some row => row.isPure
  | none => (lookup fs name).any fun k => (fs[k]?).any fun f => f.isPure

/-- The callee changes local state only. -/
def resource (marks : Finset ℕ) (name : Bytes) : Bool :=
  match R name with
  | some row => row.isLocal
  | none => (lookup fs name).any fun k => decide (k ∈ marks)

/-- The step does nothing beyond local state. -/
def stepSafe (marks : Finset ℕ) : Step → Bool
  | .callValue _ | .call _ _ true => false
  | .call name _ false => calleePure R fs name || resource R fs marks name
  | _ => true

/-- The step changes local state. -/
def stepLocal (marks : Finset ℕ) : Step → Bool
  | .call name _ false => resource R fs marks name
  | _ => false

/-- A function that is neither pure nor async, is safe in every step and changes local state. -/
def localRule (marks : Finset ℕ) (k : ℕ) : Bool :=
  match fs[k]? with
  | none => false
  | some f => !f.isPure && !f.isAsync && f.body.all (stepSafe R fs marks) &&
      f.body.any (stepLocal R fs marks)

/-- The functions of local effect. -/
def localEffects : Finset ℕ := Marking.result (localRule R fs) (range fs.length)

theorem resource_mono (h : marks ⊆ marks') (hres : resource R fs marks name) :
    resource R fs marks' name = true := by
  rw [resource] at hres ⊢
  cases hR : R name with
  | some row =>
    rw [hR] at hres
    exact hres
  | none =>
    simp only [hR, Option.any_eq_true, decide_eq_true_eq] at hres ⊢
    obtain ⟨k, hk, hmem⟩ := hres
    exact ⟨k, hk, h hmem⟩

section Transfer

variable {R fs} {fs' : List Outline} {k' : ℕ}
  (hres : ∀ name, resource R fs marks name = true → resource R fs' marks' name = true)

include hres

theorem stepLocal_transfer {s : Step} (hlocal : stepLocal R fs marks s) :
    stepLocal R fs' marks' s = true := by
  cases s with
  | call name arity awaited =>
    cases awaited with
    | true => exact hlocal
    | false => exact hres name hlocal
  | _ => exact hlocal

variable (hpure : ∀ name, calleePure R fs name = true → calleePure R fs' name = true)

include hpure

theorem stepSafe_transfer {s : Step} (hsafe : stepSafe R fs marks s) :
    stepSafe R fs' marks' s = true := by
  cases s with
  | call name arity awaited =>
    cases awaited with
    | true => exact hsafe
    | false =>
      simp only [stepSafe, Bool.or_eq_true] at hsafe ⊢
      exact hsafe.imp (hpure name) (hres name)
  | _ => exact hsafe

/-- The rule is kept where the calls find as much. -/
theorem localRule_transfer (hk : fs'[k']? = fs[k]?) (hrule : localRule R fs marks k) :
    localRule R fs' marks' k' = true := by
  rw [localRule] at hrule ⊢
  rw [hk]
  cases hf : fs[k]? with
  | none =>
    rw [hf] at hrule
    exact hrule
  | some f =>
    simp only [hf, Bool.and_eq_true, all_eq_true, any_eq_true] at hrule ⊢
    obtain ⟨⟨hflg, hsafe⟩, s, hs, hlocal⟩ := hrule
    exact ⟨⟨hflg, fun s hs => stepSafe_transfer hres hpure (hsafe s hs)⟩, s, hs,
      stepLocal_transfer hres hlocal⟩

end Transfer

theorem localRule_increasing : Marking.Increasing (localRule R fs) :=
  fun _ _ _ h => localRule_transfer (fun _ => resource_mono R fs h) (fun _ => id) rfl

theorem mem_localEffects_iff :
    k ∈ localEffects R fs ↔ localRule R fs (localEffects R fs) k = true := by
  rw [localEffects, Marking.mem_result_iff (localRule_increasing R fs), mem_range]
  refine and_iff_right_of_imp fun h => ?_
  by_contra hlen
  rw [localRule, getElem?_eq_none (not_lt.mp hlen)] at h
  cases h

/-! ## The checks -/

/-- The callee of a name. -/
def callee (name : Bytes) : Option Callee :=
  match R name with
  | some row => some row
  | none => (lookup fs name).bind fun k => (fs[k]?).map fun f =>
      ⟨f.params.length, f.isPure, f.isAsync, decide (k ∈ localEffects R fs)⟩

/-- The effects of caller and callee fit. -/
def Edge (caller : Outline) (c : Callee) (awaited : Bool) : Prop :=
  if awaited = true then caller.isAsync = true ∧ c.isAsync = true
  else c.isAsync = false ∧ (caller.isPure = true → c.isPure = true) ∧
    (caller.isAsync = true → c.isPure = true ∨ c.isLocal = true)

/-- A step of a function meets the contract. -/
def StepOk (f : Outline) : Step → Prop
  | .call name arity awaited => ∃ c, callee R fs name = some c ∧ arity = c.arity ∧ Edge f c awaited
  | .callValue awaited => awaited = true → f.isAsync = true
  | .jump target => target < f.body.length
  | .interpolate count => count ≠ 0
  | .ret | .other => True

/-- The signature of a function and the form of its body. -/
structure SignatureOk (f : Outline) : Prop where
  effect : ¬ (f.isPure = true ∧ f.isAsync = true)
  named : f.name ≠ []
  params : f.params.Nodup
  nonempty : f.body ≠ []
  returns : .ret ∈ f.body

/-- The checks of a verifier, by position. -/
inductive Check where
  | main
  | order (k : ℕ)
  | signature (k : ℕ)
  | step (k j : ℕ)

/-- A check succeeds; one without a subject does. -/
def Holds : Check → Prop
  | .main => ∃ k f, lookup fs (asciiBytes "main") = some k ∧ fs[k]? = some f ∧ f.params = []
  | .order k => ∀ f g, fs[k]? = some f → fs[k + 1]? = some g → f.name < g.name
  | .signature k => ∀ f, fs[k]? = some f → SignatureOk f
  | .step k j => ∀ f s, fs[k]? = some f → f.body[j]? = some s → StepOk R fs f s

/-- All checks succeed. -/
def Admissible : Prop := ∀ check, Holds R fs check

/-- The names are in strictly ascending order. -/
def Sorted : Prop := fs.Pairwise fun f g => f.name < g.name

variable {R fs}

theorem forall_order_iff : (∀ k, Holds R fs (.order k)) ↔ Sorted fs := by
  rw [Sorted, ← List.isChain_iff_pairwise, List.isChain_iff_getElem]
  constructor
  · intro h k hk
    exact h k _ _ (List.getElem?_eq_getElem (by omega)) (List.getElem?_eq_getElem hk)
  intro h k f g hf hg
  obtain ⟨hk, rfl⟩ := List.getElem?_eq_some_iff.mp hf
  obtain ⟨hk', rfl⟩ := List.getElem?_eq_some_iff.mp hg
  exact h k hk'

theorem admissible_iff : Admissible R fs ↔
    Holds R fs .main ∧ Sorted fs ∧ (∀ f ∈ fs, SignatureOk f) ∧
      ∀ f ∈ fs, ∀ s ∈ f.body, StepOk R fs f s := by
  constructor
  · intro h
    refine ⟨h .main, forall_order_iff.mp fun k => h (.order k), fun f hf => ?_, fun f hf s hs => ?_⟩
    · obtain ⟨k, hk⟩ := mem_iff_getElem?.mp hf
      exact h (.signature k) f hk
    · obtain ⟨k, hk⟩ := mem_iff_getElem?.mp hf
      obtain ⟨j, hj⟩ := mem_iff_getElem?.mp hs
      exact h (.step k j) f s hk hj
  · rintro ⟨hmain, horder, hsig, hstep⟩ (_ | k | k | ⟨k, j⟩)
    · exact hmain
    · exact forall_order_iff.mpr horder k
    · exact fun f hf => hsig f (mem_of_getElem? hf)
    · exact fun f s hf hs => hstep f (mem_of_getElem? hf) s (mem_of_getElem? hs)

theorem Sorted.nodup (hsort : Sorted fs) : (fs.map Outline.name).Nodup := by
  refine pairwise_map.mpr (List.Pairwise.imp (fun hlt heq => ?_) hsort)
  rw [heq] at hlt
  exact List.lt_irrefl _ hlt

theorem lookup_eq_some_iff (hdist : (fs.map Outline.name).Nodup) :
    lookup fs name = some k ↔ ∃ f, fs[k]? = some f ∧ f.name = name :=
  Library.Keyed.findIdx?_eq_some_iff hdist

theorem calleePure_of_callee (h : callee R fs name = some c) : calleePure R fs name = c.isPure := by
  rw [callee] at h
  rw [calleePure]
  cases hR : R name with
  | some row =>
    simp only [hR, some.injEq] at h
    rw [h]
  | none =>
    simp only [hR] at h
    obtain ⟨k, hk, h⟩ := bind_eq_some_iff.mp h
    obtain ⟨f, hf, rfl⟩ := map_eq_some_iff.mp h
    simp [hk, hf]

theorem resource_of_callee (h : callee R fs name = some c) :
    resource R fs (localEffects R fs) name = c.isLocal := by
  rw [callee] at h
  rw [resource]
  cases hR : R name with
  | some row =>
    simp only [hR, some.injEq] at h
    rw [h]
  | none =>
    simp only [hR] at h
    obtain ⟨k, hk, h⟩ := bind_eq_some_iff.mp h
    obtain ⟨f, hf, rfl⟩ := map_eq_some_iff.mp h
    simp [hk]

/-- A function with a local effect calls only what is pure or local. -/
theorem callee_of_mem_localEffects (hk : k ∈ localEffects R fs) (hf : fs[k]? = some f) {arity : ℕ}
    (hcall : .call name arity false ∈ f.body) (hc : callee R fs name = some c) :
    c.isPure = true ∨ c.isLocal = true := by
  have hrule := (mem_localEffects_iff R fs).mp hk
  simp only [localRule, hf, Bool.and_eq_true, all_eq_true] at hrule
  have hsafe := hrule.1.2 _ hcall
  rw [stepSafe, calleePure_of_callee hc, resource_of_callee hc, Bool.or_eq_true] at hsafe
  exact hsafe

/-! ## The Panackelty verifier -/

/-- The builtins that `decoder.panack` knows; it has no notion of local state. -/
def registry : Registry := fun name =>
  match toStr name with
  | none => none
  | some s =>
    if builtinExists s then
      some ⟨Compiler.builtinArity s, builtinIsPure s, isAsyncService s, false⟩
    else none

/-- What the contract reads of an instruction. -/
def step : Instruction → Step
  | .callInstruction name arity => .call name.bytes arity false
  | .awaitCallInstruction name arity => .call name.bytes arity true
  | .callValueInstruction _ => .callValue false
  | .awaitValueInstruction _ => .callValue true
  | .iterNextInstruction _ _ stop => .jump stop
  | .matchVariantInstruction _ failure => .jump failure
  | .jumpFalseInstruction target | .jumpInstruction target => .jump target
  | .interpolateInstruction parts => .interpolate parts.length
  | .returnInstruction => .ret
  | _ => .other

/-- What the contract reads of a function. -/
def outline (f : FunctionCode) : Outline :=
  ⟨f.name.bytes, f.isPure, f.isAsync, f.parameters.map bytes, f.instructions.map step⟩

theorem registry_bytes (name : Str) : registry name.bytes = if builtinExists name then
      some ⟨Compiler.builtinArity name, builtinIsPure name, isAsyncService name, false⟩
        else none := by
  rw [registry, toStr_bytes]

theorem isLocal_registry {name : Bytes} {row : Callee} (h : registry name = some row) :
    row.isLocal = false := by
  rw [registry] at h
  split at h
  · cases h
  split_ifs at h
  cases h
  rfl

theorem localEffects_eq_empty {R : Registry} (hR : ∀ name row, R name = some row →
    row.isLocal = false) (fs : List Outline) : localEffects R fs = ∅ := by
  refine Finset.subset_empty.mp (Marking.result_subset (localRule_increasing R fs) ?_)
  intro k _ hrule
  exfalso
  have hrsrc : ∀ name, resource R fs ∅ name = false := by
    intro name
    rw [resource]
    cases hrow : R name with
    | some row => exact hR name row hrow
    | none => simp
  rw [localRule] at hrule
  rcases hk : fs[k]? with _ | f
  · rw [hk] at hrule
    cases hrule
  simp only [hk, Bool.and_eq_true, any_eq_true] at hrule
  obtain ⟨-, s, -, hlocal⟩ := hrule
  cases s with
  | call name arity awaited =>
    cases awaited with
    | true => cases hlocal
    | false =>
      rw [stepLocal, hrsrc] at hlocal
      cases hlocal
  | _ => cases hlocal

theorem builtinExists_of_isAsyncService {name : Str} (h : isAsyncService name) :
    builtinExists name = true := by
  simp only [isAsyncService, Compiler.isOneOf, Option.any_eq_true] at h
  obtain ⟨b, hb, hmem⟩ := h
  simp only [builtinExists, Compiler.isBuiltin, Compiler.isOneOf, hb, Option.any_some]
  revert hmem
  cases b <;> decide

theorem sorted_outline_iff : Sorted (gs.map outline) ↔ ByteReader.SortedNames gs :=
  pairwise_map

theorem bytecodeFunction_eq_lookup (hsort : ByteReader.SortedNames gs) (name : Str) :
    bytecodeFunction ⟨gs⟩ name = (lookup (gs.map outline) name.bytes).bind fun k => gs[k]? := by
  have hnames : (gs.map FunctionCode.name).Nodup := by
    refine pairwise_map.mpr (hsort.imp fun {f g} hlt heq => ?_)
    rw [heq] at hlt
    exact lt_irrefl _ hlt
  rcases hlook : lookup (gs.map outline) name.bytes with _ | k
  · rw [Option.bind_none, bytecodeFunction_eq_none_iff]
    intro f hf heq
    rw [lookup, findIdx?_eq_none_iff] at hlook
    have hne := hlook (outline f) (mem_map_of_mem hf)
    rw [← heq] at hne
    simp [outline] at hne
  obtain ⟨o, ho, hname⟩ := (lookup_eq_some_iff (sorted_outline_iff.mpr hsort).nodup).mp hlook
  rw [getElem?_map] at ho
  obtain ⟨f, hf, rfl⟩ := map_eq_some_iff.mp ho
  rw [Option.bind_some, hf, bytecodeFunction_eq_some_iff hnames]
  exact ⟨mem_of_getElem? hf, ext_bytes hname⟩

theorem callee_registry (hsort : ByteReader.SortedNames gs) (name : Str) :
    callee registry (gs.map outline) name.bytes = if builtinExists name then
        some ⟨Compiler.builtinArity name, builtinIsPure name, isAsyncService name, false⟩
      else (bytecodeFunction ⟨gs⟩ name).map fun g =>
        ⟨g.parameters.length, g.isPure, g.isAsync, false⟩ := by
  have hlocal := localEffects_eq_empty (fun name row => @isLocal_registry name row) (gs.map outline)
  rw [callee, registry_bytes, bytecodeFunction_eq_lookup hsort, hlocal]
  split_ifs with h
  · rfl
  simp only [getElem?_map, Option.map_map, Option.map_bind]
  refine congrArg _ (funext fun k => ?_)
  rw [Function.comp_apply]
  cases gs[k]? with
  | none => rfl
  | some g => simp [outline]

theorem edge_await_iff : Edge f c true ↔ f.isAsync = true ∧ c.isAsync = true := by
  rw [Edge, if_pos rfl]

theorem edge_call_iff : Edge f c false ↔ c.isAsync = false ∧ (f.isPure = true → c.isPure = true) ∧
      (f.isAsync = true → c.isPure = true ∨ c.isLocal = true) := by
  rw [Edge, if_neg Bool.false_ne_true]

/-- The message of a call whose callee is known. -/
def callMessage (name : Str) (arity : ℕ) (f : FunctionCode) (c : Callee) : Str :=
  if c.isAsync then ascii "ordinary call cannot enter async function"
  else if f.isAsync && !c.isPure then ascii "async function cannot call blocking function"
  else if arity ≠ c.arity then
    ascii "bytecode call to " ++ name ++ ascii " has invalid arity"
  else if f.isPure && !c.isPure then
    ascii "pure bytecode function calls impure function " ++ name
  else empty

theorem callMessage_eq_empty_iff {name : Str} {arity : ℕ} {f : FunctionCode}
    (hlocal : c.isLocal = false) :
    callMessage name arity f c = empty ↔ arity = c.arity ∧ Edge (outline f) c false := by
  rw [callMessage, edge_call_iff]
  have harity : ascii "bytecode call to " ++ name ++ ascii " has invalid arity" ≠
      empty := append_ne_empty (append_ne_empty (by decide) name) _
  have hpure : ascii "pure bytecode function calls impure function " ++ name ≠ empty :=
    append_ne_empty (by decide) name
  split_ifs with hasync hblk hwrong himp
  · refine iff_of_false (by decide) fun h => ?_
    rw [hasync] at h
    cases h.2.1
  · refine iff_of_false (by decide) fun h => ?_
    simp only [Bool.and_eq_true, Bool.not_eq_eq_eq_not, Bool.not_true] at hblk
    rcases h.2.2.2 hblk.1 with h | h
    · cases hblk.2.symm.trans h
    · cases hlocal.symm.trans h
  · exact iff_of_false harity fun h => hwrong h.1
  · refine iff_of_false hpure fun h => ?_
    simp only [Bool.and_eq_true, Bool.not_eq_eq_eq_not, Bool.not_true] at himp
    have := h.2.2.1 himp.1
    rw [himp.2] at this
    cases this
  · simp only [Bool.and_eq_true, Bool.not_eq_eq_eq_not, Bool.not_true, not_and,
      Bool.not_eq_false] at hblk himp
    exact iff_of_true rfl ⟨not_not.mp hwrong, Bool.eq_false_iff.mpr hasync, himp,
      fun h => Or.inl (hblk h)⟩

theorem verifyCall_eq (hsort : ByteReader.SortedNames gs) (name : Str) (arity : ℕ)
    (f : FunctionCode) :
    verifyCall name arity f ⟨gs⟩ = match callee registry (gs.map outline) name.bytes with
      | none => ascii "bytecode calls unknown function " ++ name
      | some c => callMessage name arity f c := by
  rw [callee_registry hsort, verifyCall]
  by_cases hblt : builtinExists name = true
  · simp [hblt, callMessage]
  have hserv : isAsyncService name = false :=
    Bool.eq_false_iff.mpr fun h => hblt (builtinExists_of_isAsyncService h)
  cases htgt : bytecodeFunction ⟨gs⟩ name with
  | none => simp [hblt]
  | some g => simp [hblt, hserv, callMessage]

theorem isLocal_callee (hsort : ByteReader.SortedNames gs) {name : Str}
    (h : callee registry (gs.map outline) name.bytes = some c) : c.isLocal = false := by
  rw [callee_registry hsort] at h
  split_ifs at h
  · cases h
    rfl
  · obtain ⟨g, -, rfl⟩ := map_eq_some_iff.mp h
    rfl

theorem verifyCall_eq_empty_iff (hsort : ByteReader.SortedNames gs) (name : Str) (arity : ℕ)
    (f : FunctionCode) : verifyCall name arity f ⟨gs⟩ = empty ↔
      StepOk registry (gs.map outline) (outline f) (.call name.bytes arity false) := by
  rw [verifyCall_eq hsort, StepOk]
  cases hcal : callee registry (gs.map outline) name.bytes with
  | none =>
    refine iff_of_false (append_ne_empty (by decide) name) ?_
    rintro ⟨c, hc, _⟩
    cases hc
  | some c =>
    rw [callMessage_eq_empty_iff (isLocal_callee hsort hcal)]
    simp

theorem verifyAwaitCall_eq_empty_iff (hsort : ByteReader.SortedNames gs) (name : Str) (arity : ℕ)
    (f : FunctionCode) : verifyAwaitCall name arity f ⟨gs⟩ = empty ↔
      StepOk registry (gs.map outline) (outline f) (.call name.bytes arity true) := by
  rw [StepOk, callee_registry hsort, verifyAwaitCall]
  simp only [edge_await_iff]
  have hrequires : ascii "await requires async function" ≠ empty := by decide
  have hserv : ascii "async service arity mismatch" ≠ empty := by decide
  have htgt : ascii "await target must be async" ≠ empty := by decide
  have harity : ascii "async call arity mismatch" ≠ empty := by decide
  by_cases hcall : f.isAsync = true
  · by_cases hblt : builtinExists name = true
    · by_cases hasync : isAsyncService name = true
      · by_cases ha : arity = Compiler.builtinArity name <;>
          simp [hcall, hblt, hasync, ha, hserv, outline]
      · simp [hcall, hblt, hasync, htgt, outline]
    have hno : isAsyncService name = false :=
      Bool.eq_false_iff.mpr fun h => hblt (builtinExists_of_isAsyncService h)
    cases hlook : bytecodeFunction ⟨gs⟩ name with
    | none => simp [hcall, hblt, hno, htgt]
    | some g =>
      by_cases hg : g.isAsync = true
      · by_cases ha : arity = g.parameters.length <;>
          simp [hcall, hblt, hno, hg, ha, harity, outline]
      · simp [hcall, hblt, hno, hg, htgt, outline]
  · simp [hcall, hrequires, outline]

/-- The format has only the two operators that the verifier accepts. -/
theorem unaryOperator_of_ok {op : Str} (h : instruction.Ok (.unaryInstruction op)) :
    op = ascii "-" ∨ op = ascii "!" := by
  have hunary : toUnary (unaryCode op) = some (.unaryInstruction op) :=
    h.2.2
  rw [Format.toUnary] at hunary
  split_ifs at hunary
  simp only [some.injEq, Instruction.unaryInstruction.injEq] at hunary
  rw [Format.unaryOperator] at hunary
  split_ifs at hunary
  · exact Or.inl hunary.symm
  · exact Or.inr hunary.symm

theorem verifyInstruction_eq_empty_iff (hsort : ByteReader.SortedNames gs) {f : FunctionCode}
    {i : Instruction} (hok : instruction.Ok i) :
    verifyInstruction i f ⟨gs⟩ = empty ↔ StepOk registry (gs.map outline) (outline f) (step i) := by
  have hlen : (outline f).body.length = f.instructions.length := length_map _
  cases i with
  | callInstruction name arity => exact verifyCall_eq_empty_iff hsort name arity f
  | awaitCallInstruction name arity => exact verifyAwaitCall_eq_empty_iff hsort name arity f
  | unaryInstruction op =>
    refine iff_of_true ?_ trivial
    rw [verifyInstruction, require_eq_empty_iff (by decide), Bool.or_eq_true, beq_iff_eq,
      beq_iff_eq]
    exact unaryOperator_of_ok hok
  | pendingEndJumpInstruction => exact hok.2.elim
  | interpolateInstruction parts =>
    rw [verifyInstruction, require_eq_empty_iff (by decide), decide_eq_true_eq]
    exact Nat.pos_iff_ne_zero
  | awaitValueInstruction arity =>
    rw [verifyInstruction, require_eq_empty_iff (by decide)]
    exact ⟨fun h _ => h, fun h => h rfl⟩
  | iterNextInstruction iter name stop | matchVariantInstruction variant failure
  | jumpFalseInstruction tgt | jumpInstruction tgt =>
    rw [verifyInstruction, require_eq_empty_iff (by decide), decide_eq_true_eq, ← hlen]
    rfl
  | callValueInstruction arity => exact iff_of_true rfl fun h => absurd h Bool.false_ne_true
  | _ => exact iff_of_true rfl trivial

theorem functionOk_iff (hsort : ByteReader.SortedNames gs) {f : FunctionCode}
    (hok : ∀ i ∈ f.instructions, instruction.Ok i) : FunctionOk ⟨gs⟩ f ↔ SignatureOk (outline f) ∧
      ∀ s ∈ (outline f).body, StepOk registry (gs.map outline) (outline f) s := by
  have hparams : (f.parameters.map bytes).Nodup ↔ f.parameters.Nodup :=
    nodup_map_iff fun _ _ => ext_bytes
  have hname : f.name.bytes ≠ [] ↔ f.name ≠ empty :=
    not_congr ⟨fun h => ext_bytes h, fun h => congrArg bytes h⟩
  have hbody : f.instructions.map step ≠ [] ↔ f.instructions ≠ [] := by simp
  have hret : .ret ∈ f.instructions.map step ↔ .returnInstruction ∈ f.instructions := by
    refine mem_map.trans ⟨?_, fun h => ⟨_, h, rfl⟩⟩
    rintro ⟨i, hi, heq⟩
    cases i <;> first | exact hi | cases heq
  constructor
  · intro h
    refine ⟨⟨h.effect, hname.mpr h.named, hparams.mpr h.parameters, hbody.mpr h.nonempty,
      hret.mpr h.returns⟩, fun s hs => ?_⟩
    obtain ⟨i, hi, rfl⟩ := mem_map.mp hs
    exact (verifyInstruction_eq_empty_iff hsort (hok i hi)).mp (h.instructions i hi)
  · rintro ⟨hsig, hsteps⟩
    exact ⟨hsig.effect, hname.mp hsig.named, hparams.mp hsig.params,
      hbody.mp hsig.nonempty, fun i hi => (verifyInstruction_eq_empty_iff hsort
        (hok i hi)).mpr (hsteps _ (mem_map_of_mem hi)), hret.mp hsig.returns⟩

/-- The Panackelty verifier, with the order that the reading phase checks, is the contract for its
registry. -/
theorem programOk_iff_admissible (hok : ∀ f ∈ gs, ∀ i ∈ f.instructions, instruction.Ok i)
    (htotal : totalInstructions gs ≤ 4000000) :
    ByteReader.SortedNames gs ∧ ProgramOk ⟨gs⟩ ↔ Admissible registry (gs.map outline) := by
  rw [admissible_iff, sorted_outline_iff]
  constructor
  · rintro ⟨hsort, hprog⟩
    have hfns : ∀ o ∈ gs.map outline, SignatureOk o ∧
        ∀ s ∈ o.body, StepOk registry (gs.map outline) o s := by
      intro o ho
      obtain ⟨f, hf, rfl⟩ := mem_map.mp ho
      exact (functionOk_iff hsort (hok f hf)).mp (hprog.functions f hf)
    refine ⟨?_, hsort, fun o ho => (hfns o ho).1, fun o ho => (hfns o ho).2⟩
    obtain ⟨f, hf, hparams⟩ := hprog.main
    rw [bytecodeFunction_eq_lookup hsort] at hf
    obtain ⟨k, hk, hget⟩ := bind_eq_some_iff.mp hf
    refine ⟨k, outline f, hk, ?_, ?_⟩
    · rw [getElem?_map, hget]
      rfl
    · show f.parameters.map bytes = []
      rw [hparams]
      rfl
  · rintro ⟨⟨k, o, hk, ho, hparams⟩, hsort, hsig, hsteps⟩
    refine ⟨hsort, ?_, htotal, fun f hf => ?_⟩
    · rw [getElem?_map] at ho
      obtain ⟨f, hf, rfl⟩ := map_eq_some_iff.mp ho
      refine ⟨f, ?_, map_eq_nil_iff.mp hparams⟩
      rw [bytecodeFunction_eq_lookup hsort]
      exact bind_eq_some_iff.mpr ⟨k, hk, hf⟩
    · have hmem := mem_map_of_mem (f := outline) hf
      exact (functionOk_iff hsort (hok f hf)).mpr ⟨hsig _ hmem, hsteps _ hmem⟩

end Panackelty.Bytecode.Contract
