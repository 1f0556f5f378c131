import Panackelty.Library.Keyed
import Panackelty.Library.Marking
import Panackelty.Vm.Builtins
import Panackelty.Vm.Decode

/-!
# `vm/verify.c`: the semantic verifier

A function is known by its position in the program.  While local effects are inferred the marks are
kept beside the functions; they are stored in the functions at the end.

* `programFunction`, `verifyCallEdge`, `inferLocalEffects`, `verify`: the verifier.
* `load`: decoding, then verification.
* `FunctionVerified`, `verify_eq_ok_iff`: what the verifier accepts, in its own tests.
* `programFunction_verified`: the lookups before and after verification agree.
-/

namespace Panackelty.Vm

open Library List CString

/-! ## Lookup -/

/-- The binary search of `program_function`; the fuel bounds the interval. -/
def functionSearch (functions : List Function) (name : CString) : (fuel low high : ℕ) → Option ℕ
  | 0, _, _ => none
  | fuel + 1, low, high =>
    if low < high then
      let middle := low + (high - low) / 2
      match functions[middle]? with
      | none => none
      | some f =>
        if name = f.name then some middle
        else if name < f.name then functionSearch functions name fuel low middle
        else functionSearch functions name fuel (middle + 1) high
    else none

/-- `program_function`. -/
def programFunction (p : Program) (name : CString) : Option ℕ :=
  if p.verifiedFunctionOrder then
    functionSearch p.functions name (p.functions.length + 1) 0 p.functions.length
  else p.functions.findIdx? fun f => f.name == name

/-- The function that a lookup points to. -/
def functionOf (p : Program) (name : CString) : Option Function :=
  (programFunction p name).bind fun k => p.functions[k]?

/-! ## Effects -/

/-- `verify_call_edge`. -/
def verifyCallEdge (caller : Function) (callee : Option Function)
    (builtinPure builtinAsync builtinLocal awaited : Bool) : Bool :=
  let async := match callee with | some f => f.isAsync | none => builtinAsync
  let pure := match callee with | some f => f.pure | none => builtinPure
  if awaited then caller.isAsync && !caller.pure && async
  else
    let isLocal := match callee with | some f => f.localEffect | none => builtinLocal
    if caller.pure then !async && pure
    else !async && (!(caller.isAsync || caller.localEffect) || pure || isLocal)

/-- The body of the instruction loop of `infer_local_effects`, with the flags `safe` and `local`. -/
def inferInstruction (p : Program) (marks : Finset ℕ) (flags : Bool × Bool) (i : Instruction) :
    Bool × Bool :=
  if flags.1 then
    match i with
    | .callValue _ | .awaitValue _ | .awaitCall _ _ => (false, flags.2)
    | .call name _ =>
      let entry := builtin name
      let callee := if entry.isSome then none else programFunction p name
      let pure := match entry with
        | some row => row.pure
        | none => callee.any fun k => (p.functions[k]?).any fun f => f.pure
      let resource := match entry with
        | some row => builtinIsLocalState (some row)
        | none => callee.any fun k => decide (k ∈ marks)
      (pure || resource, flags.2 || resource)
    | _ => flags
  else flags

/-- The body of the function loop of `infer_local_effects`. -/
def inferFunction (p : Program) (marks : Finset ℕ) (k : ℕ) : Bool :=
  match p.functions[k]? with
  | none => false
  | some f =>
    if f.pure || f.isAsync then false
    else
      let flags := f.ins.foldl (inferInstruction p marks) (true, false)
      flags.1 && flags.2

/-- The marks of `infer_local_effects`. -/
def localMarks (p : Program) : Finset ℕ :=
  Marking.result (inferFunction p) (range p.functions.length)

/-- `infer_local_effects`. -/
def inferLocalEffects (p : Program) : Program :=
  { p with functions := p.functions.mapIdx fun k f =>
      { f with localEffect := decide (k ∈ localMarks p) } }

/-! ## Verification -/

/-- The test of a call. -/
def verifyCall (p : Program) (f : Function) (name : CString) (arity : ℕ) (awaited : Bool) :
    Option String :=
  let b := builtin name
  let called := functionOf p name
  if b.isNone && called.isNone then some "call to unknown function"
  else
    let expected := match b with
      | some row => row.arity
      | none => (called.map fun g => g.params.length).getD 0
    if arity ≠ expected then some "call arity mismatch"
    else if verifyCallEdge f (if b.isSome then none else called) (b.any fun row => row.pure)
        (builtinIsAsync b) (builtinIsLocalState b) awaited then none
    else if f.pure then some "pure function calls impure function"
    else some "invalid async call effect"

/-- The body of the instruction loop of `verify`. -/
def verifyInstruction (p : Program) (f : Function) : Instruction → Option String
  | .interpolate items => if items.length = 0 then some "invalid INTERPOLATE operand" else none
  | .iterNext _ _ target | .matchVariant _ target | .jumpFalse target
  | .jump target => if f.ins.length ≤ target then some "invalid jump target" else none
  | .awaitValue _ => if f.isAsync then none else some "invalid async instruction"
  | .call name arity => verifyCall p f name arity false
  | .awaitCall name arity => verifyCall p f name arity true
  | _ => none

/-- The loops over two parameters. -/
def duplicateParams : List CString → Bool
  | [] => false
  | param :: params => params.contains param || duplicateParams params

/-- The instructions of a function. -/
def verifyBody (p : Program) (f : Function) : Option String :=
  match f.ins.findSome? (verifyInstruction p f) with
  | some error => some error
  | none => if f.ins.contains .ret then none else some "bytecode function has no RETURN"

/-- The body of the function loop of `verify`, after the name of the function before. -/
def verifyFunction (p : Program) (previous : Option CString) (f : Function) : Option String :=
  if (f.pure && f.isAsync) || f.name.bytes.isEmpty then some "invalid function signature"
  else if previous.any fun name => !decide (name < f.name) then
    some "functions are not in canonical order"
  else if duplicateParams f.params then some "invalid function signature"
  else if f.ins.isEmpty then some "bytecode function is empty"
  else verifyBody p f

/-- The function loop of `verify`. -/
def verifyFunctions (p : Program) : (previous : Option CString) → List Function → Option String
  | _, [] => none
  | previous, f :: functions =>
    match verifyFunction p previous f with
    | some error => some error
    | none => verifyFunctions p (some f.name) functions

/-- `verify`. -/
def verify (p : Program) : Except String Program :=
  let p := inferLocalEffects { p with verifiedFunctionOrder := false }
  match functionOf p (ascii "main") with
  | none => .error "bytecode has no main function"
  | some main =>
    if main.params.length ≠ 0 then .error "main must not have parameters"
    else
      match verifyFunctions p none p.functions with
      | some error => .error error
      | none => .ok { p with verifiedFunctionOrder := true }

/-- Decoding, then verification. -/
def load (data : Bytes) : Except String Program :=
  match decode data with
  | .error error => .error error
  | .ok p => verify p

/-! ## What the verifier accepts -/

/-- The names of the functions are in strictly ascending order. -/
def SortedFunctions (functions : List Function) : Prop :=
  functions.Pairwise fun f g => f.name < g.name

/-- A function in which the verifier finds no error. -/
structure FunctionVerified (p : Program) (f : Function) : Prop where
  effect : ¬ (f.pure = true ∧ f.isAsync = true)
  named : f.name.bytes ≠ []
  params : f.params.Nodup
  nonempty : f.ins ≠ []
  instructions : ∀ i ∈ f.ins, verifyInstruction p f i = none
  returns : .ret ∈ f.ins

theorem duplicateParams_eq_false_iff : ∀ {params : List CString},
    duplicateParams params = false ↔ params.Nodup
  | [] => by simp [duplicateParams]
  | param :: params => by
    rw [duplicateParams, Bool.or_eq_false_iff, nodup_cons, duplicateParams_eq_false_iff,
      ← Bool.not_eq_true, contains_iff_mem]

variable {p : Program} {f : Function}

theorem verifyBody_eq_none_iff :
    verifyBody p f = none ↔ (∀ i ∈ f.ins, verifyInstruction p f i = none) ∧ .ret ∈ f.ins := by
  rw [verifyBody, ← findSome?_eq_none_iff, ← contains_iff_mem]
  cases f.ins.findSome? (verifyInstruction p f) with
  | some error | none => simp

theorem verifyFunction_eq_none_iff {prev : Option CString} : verifyFunction p prev f = none ↔
      (∀ name ∈ prev, name < f.name) ∧ FunctionVerified p f := by
  have horder : (prev.any fun name => !decide (name < f.name)) = false ↔
      ∀ name ∈ prev, name < f.name := by cases prev <;> simp
  rw [verifyFunction, ← horder]
  constructor
  · intro h
    split_ifs at h with hsig hprev hparams hemp
    simp only [Bool.or_eq_true, Bool.and_eq_true, List.isEmpty_iff, not_or] at hsig
    obtain ⟨hinss, hret⟩ := verifyBody_eq_none_iff.mp h
    exact ⟨Bool.eq_false_iff.mpr hprev, hsig.1, hsig.2,
      duplicateParams_eq_false_iff.mp (Bool.eq_false_iff.mpr hparams),
      fun h => hemp (List.isEmpty_iff.mpr h), hinss, hret⟩
  · rintro ⟨hprev, hf⟩
    have hsig : ¬ ((f.pure && f.isAsync) || f.name.bytes.isEmpty) = true := by
      simp only [Bool.or_eq_true, Bool.and_eq_true, List.isEmpty_iff, not_or]
      exact ⟨hf.effect, hf.named⟩
    rw [if_neg hsig, if_neg (Bool.eq_false_iff.mp hprev),
      if_neg (Bool.eq_false_iff.mp (duplicateParams_eq_false_iff.mpr hf.params)),
      if_neg (mt List.isEmpty_iff.mp hf.nonempty)]
    exact verifyBody_eq_none_iff.mpr ⟨hf.instructions, hf.returns⟩

theorem verifyFunctions_eq_none_iff : ∀ {functions : List Function}
    {prev : Option CString}, verifyFunctions p prev functions = none ↔
      (∀ name ∈ prev, ∀ f ∈ functions.head?, name < f.name) ∧
        (functions.IsChain fun f g => f.name < g.name) ∧ ∀ f ∈ functions, FunctionVerified p f
  | [], prev => by simp [verifyFunctions]
  | f :: functions, prev => by
    rw [verifyFunctions]
    cases hf : verifyFunction p prev f with
    | some error =>
      refine iff_of_false (by simp) fun h => ?_
      have hnone := verifyFunction_eq_none_iff.mpr
        ⟨fun name hname => h.1 name hname f rfl, h.2.2 f mem_cons_self⟩
      cases hf.symm.trans hnone
    | none =>
      obtain ⟨horder, hver⟩ := verifyFunction_eq_none_iff.mp hf
      simp only
      rw [verifyFunctions_eq_none_iff, isChain_cons, forall_mem_cons]
      constructor
      · rintro ⟨hfirst, hchain, hrest⟩
        refine ⟨fun name hname g hg => ?_, ⟨fun g hg => hfirst f.name rfl g hg, hchain⟩, hver,
          hrest⟩
        cases hg
        exact horder name hname
      · rintro ⟨_, ⟨hfirst, hchain⟩, _, hrest⟩
        refine ⟨fun name hname g hg => ?_, hchain, hrest⟩
        cases hname
        exact hfirst g hg

theorem lt_trans_name (f g h : Function) : f.name < g.name → g.name < h.name → f.name < h.name :=
  lt_trans

/-- The verifier accepts a program whose functions it finds no error in, and returns it with its
local effects. -/
theorem verify_eq_ok_iff {q : Program} {p' : Program}
    (hp' : p' = inferLocalEffects { p with verifiedFunctionOrder := false }) :
    verify p = .ok q ↔ (∃ main, functionOf p' (ascii "main") = some main ∧ main.params = []) ∧
        SortedFunctions p'.functions ∧ (∀ f ∈ p'.functions, FunctionVerified p' f) ∧
        q = { p' with verifiedFunctionOrder := true } := by
  have htrans : IsTrans Function fun f g => f.name < g.name := ⟨lt_trans_name⟩
  have hloop := @verifyFunctions_eq_none_iff p' p'.functions none
  rw [isChain_iff_pairwise] at hloop
  rw [verify, ← hp']
  rcases hmain : functionOf p' (ascii "main") with _ | main
  · simp
  simp only [Option.some.injEq, exists_eq_left']
  by_cases hparams : main.params = []
  · rw [if_neg (by simp [hparams])]
    cases hver : verifyFunctions p' none p'.functions with
    | some error =>
      refine iff_of_false (by simp) fun h => ?_
      have hnone := hloop.mpr ⟨fun _ hname => (by cases hname), h.2.1, h.2.2.1⟩
      cases hver.symm.trans hnone
    | none =>
      obtain ⟨-, hsort, hfns⟩ := hloop.mp hver
      simp only [Except.ok.injEq, hparams, true_and]
      exact ⟨fun h => ⟨hsort, hfns, h.symm⟩, fun h => h.2.2.symm⟩
  · rw [if_pos fun h => hparams (length_eq_zero_iff.mp h)]
    exact iff_of_false (by simp) fun h => hparams h.1

/-! ## Lookup in ascending order -/

variable {functions : List Function} {name : CString}

theorem getElem_name_lt (hsort : SortedFunctions functions) {j k : ℕ} {g : Function}
    (hf : functions[j]? = some f) (hg : functions[k]? = some g) (h : j < k) : f.name < g.name := by
  obtain ⟨hj, rfl⟩ := List.getElem?_eq_some_iff.mp hf
  obtain ⟨hk, rfl⟩ := List.getElem?_eq_some_iff.mp hg
  exact List.pairwise_iff_getElem.mp hsort j k hj hk h

/-- A function of the name lies between the ends of the search until it is found. -/
theorem functionSearch_eq_some (hsort : SortedFunctions functions) {k : ℕ}
    (hf : functions[k]? = some f) (hname : f.name = name) :
    ∀ {fuel low high : ℕ}, low ≤ k → k < high → high ≤ functions.length → high - low < fuel →
      functionSearch functions name fuel low high = some k
  | 0, _, _, _, _, _, hfuel => absurd hfuel (Nat.not_lt_zero _)
  | fuel + 1, low, high, hlow, hhigh, hlen, hfuel => by
    have hmid : low + (high - low) / 2 < functions.length := by omega
    obtain ⟨g, hg⟩ : ∃ g, functions[low + (high - low) / 2]? = some g :=
      ⟨_, getElem?_eq_getElem hmid⟩
    rw [functionSearch, if_pos (by omega)]
    simp only [hg]
    rcases lt_trichotomy k (low + (high - low) / 2) with h | h | h
    · have hlt := getElem_name_lt hsort hf hg h
      rw [hname] at hlt
      rw [if_neg fun heq => CString.lt_irrefl _ (heq ▸ hlt), if_pos hlt]
      exact functionSearch_eq_some hsort hf hname hlow h (by omega) (by omega)
    · subst h
      cases hf.symm.trans hg
      rw [if_pos hname.symm]
    have hlt := getElem_name_lt hsort hg hf h
    rw [hname] at hlt
    rw [if_neg fun heq => CString.lt_irrefl _ (heq ▸ hlt),
      if_neg fun hgt => CString.lt_irrefl _ (CString.lt_trans hgt hlt)]
    exact functionSearch_eq_some hsort hf hname (by omega) hhigh hlen (by omega)

theorem functionSearch_spec : ∀ {fuel low high k : ℕ},
    functionSearch functions name fuel low high = some k →
      ∃ f, functions[k]? = some f ∧ f.name = name
  | 0, _, _, _, h => by cases h
  | fuel + 1, low, high, k, h => by
    rw [functionSearch] at h
    split_ifs at h
    simp only at h
    split at h
    · cases h
    rename_i g hg
    split_ifs at h with heq
    · cases h
      exact ⟨g, hg, heq.symm⟩
    · exact functionSearch_spec h
    · exact functionSearch_spec h

theorem SortedFunctions.nodup (hsort : SortedFunctions functions) :
    (functions.map Function.name).Nodup := by
  rw [SortedFunctions] at hsort
  refine pairwise_map.mpr (hsort.imp fun {f g} hlt heq => ?_)
  rw [heq] at hlt
  exact lt_irrefl _ hlt

/-- The binary search finds what a search from the start does. -/
theorem programFunction_eq_findIdx? (hsort : SortedFunctions p.functions) (name : CString) :
    programFunction p name = p.functions.findIdx? fun f => f.name == name := by
  rw [programFunction]
  split_ifs
  · refine Option.ext fun k => ?_
    rw [Library.Keyed.findIdx?_eq_some_iff hsort.nodup]
    constructor
    · exact functionSearch_spec
    rintro ⟨f, hf, hname⟩
    have hk := (List.getElem?_eq_some_iff.mp hf).1
    exact functionSearch_eq_some hsort hf hname (Nat.zero_le k) hk le_rfl (by omega)
  · rfl

/-- Before and after verification, the lookup finds the function of the name. -/
theorem programFunction_eq_some_iff (hsort : SortedFunctions p.functions) {name : CString} {k : ℕ} :
    programFunction p name = some k ↔ ∃ f, p.functions[k]? = some f ∧ f.name = name := by
  rw [programFunction_eq_findIdx? hsort, Library.Keyed.findIdx?_eq_some_iff hsort.nodup]

/-- In a verified program the binary search is a search from the start, and finds the one function
of the name if there is one. -/
theorem programFunction_verified {q : Program} (h : verify p = .ok q) (name : CString) :
    q.verifiedFunctionOrder = true ∧
    programFunction q name = q.functions.findIdx? (fun f => f.name == name) ∧
    (∀ k, programFunction q name = some k ↔ ∃ f, q.functions[k]? = some f ∧ f.name = name) ∧
    (programFunction q name = none ↔ ∀ f ∈ q.functions, f.name ≠ name) ∧
    (q.functions.map Function.name).Nodup := by
  obtain ⟨-, hord, -, hq⟩ := (verify_eq_ok_iff rfl).mp h
  have hsort : SortedFunctions q.functions := hq ▸ hord
  refine ⟨hq ▸ rfl, programFunction_eq_findIdx? hsort name,
    fun k => programFunction_eq_some_iff hsort,
    ?_, hsort.nodup⟩
  rw [programFunction_eq_findIdx? hsort, findIdx?_eq_none_iff]
  simp

/-- Four functions, two of them called, as they are before and after verification. -/
def shopProgram (verified : Bool) : Program :=
  ⟨[⟨ascii "area", true, false, false, [ascii "side"], [.load (ascii "side"), .ret]⟩,
    ⟨ascii "main", false, false, false, [],
      [.const .void, .call (ascii "area") 1, .call (ascii "tax") 0, .ret]⟩,
    ⟨ascii "tax", true, false, false, [], [.const .void, .ret]⟩,
    ⟨ascii "total", true, false, false, [], [.const .void, .ret]⟩], verified⟩

theorem programFunction_verified_shopProgram :
    programFunction (shopProgram true) (ascii "tax") = some 2 ∧
    programFunction (shopProgram true) (ascii "price") = none := by
  have hverify : verify (shopProgram false) = .ok (shopProgram true) := by decide +kernel
  obtain ⟨-, -, htax, -⟩ := programFunction_verified hverify (ascii "tax")
  obtain ⟨-, -, -, hprice, -⟩ := programFunction_verified hverify (ascii "price")
  exact ⟨(htax 2).mpr ⟨_, rfl, rfl⟩, hprice.mpr (by decide)⟩

end Panackelty.Vm
