import Mathlib.Data.List.Nodup
import Mathlib.Data.List.Perm.Subperm
import Mathlib.Logic.Relation
import Panackelty.Compiler.Emitter

/-!
# The core functions that a program keeps

`used_core_functions` repeats its pass until no name is added.  A pass adds a core name only for a
call in a function that is kept, so every name is reached by calls; a pass that adds nothing leaves
no such call, so every name that is reached is there (`mem_usedCoreFunctions`). -/

namespace Panackelty.Compiler

open Bytecode List

/-- A function of the first name calls the second name, with or without `await`. -/
def Calls (functions : List FunctionCode) (caller callee : Str) : Prop :=
  ∃ function ∈ functions, function.name = caller ∧ ∃ arity,
    .callInstruction callee arity ∈ function.instructions ∨
      .awaitCallInstruction callee arity ∈ function.instructions

/-- A chain of calls leads from a function that is no core function to the name. -/
def CoreReached (functions : List FunctionCode) (name : Str) : Prop :=
  ∃ function ∈ functions, isCore function.name = false ∧
    Relation.TransGen (Calls functions) function.name name

/-- Functions of the name are kept with these core names. -/
def Kept (used : List Str) (name : Str) : Prop := isCore name = false ∨ name ∈ used

variable {functions : List FunctionCode} {used : List Str} {caller name : Str}

theorem kept_iff : (!isCore name || used.contains name) = true ↔ Kept used name := by
  simp [Kept]

theorem calls_iff (hcore : isCore name) : Calls functions caller name ↔
    ∃ fn ∈ functions, fn.name = caller ∧ ∃ i ∈ fn.instructions, coreCallName i = name := by
  refine exists_congr fun fn => and_congr_right fun _ => and_congr_right fun _ => ?_
  constructor
  · rintro ⟨arity, h | h⟩
    · exact ⟨_, h, rfl⟩
    · exact ⟨_, h, rfl⟩
  rintro ⟨i, hi, rfl⟩
  cases i with
  | callInstruction callee arity => exact ⟨arity, .inl hi⟩
  | awaitCallInstruction callee arity => exact ⟨arity, .inr hi⟩
  | _ => cases hcore

/-! ## Passes -/

section Induction

variable {P : List Str → Prop} (hstep : ∀ used caller name, P used → Kept used caller →
  Calls functions caller name → isCore name = true → name ∉ used → P (used ++ [name]))

include hstep

/-- A pass keeps what every name of a call in a kept function keeps. -/
theorem usedRound_induction (h : P used) : P (usedRound functions used) := by
  refine foldlRecOn functions _ h fun used hused fn hf => ?_
  split_ifs with hkept
  · -- the names added for the fn itself do not stop it from being kept
    refine (foldlRecOn (motive := fun used => P used ∧ Kept used fn.name) fn.instructions _
      ⟨hused, kept_iff.mp hkept⟩ fun used ⟨hused, hkept⟩ i hi => ?_).1
    simp only
    split_ifs with hnew
    · have hnew : isCore (coreCallName i) = true ∧ coreCallName i ∉ used := by simpa using hnew
      refine ⟨hstep used _ _ hused hkept ?_ hnew.1 hnew.2, hkept.imp_right (mem_append_left _)⟩
      exact (calls_iff hnew.1).mpr ⟨fn, hf, rfl, i, hi, rfl⟩
    · exact ⟨hused, hkept⟩
  · exact hused

theorem usedLoop_induction (fuel : ℕ) (h : P used) : P (usedLoop functions fuel used) := by
  induction fuel generalizing used with
  | zero => exact h
  | succ fuel ih =>
    rw [usedLoop]
    split_ifs
    · exact h
    · exact ih (usedRound_induction hstep h)

end Induction

/-- Where extending steps change nothing, no step does. -/
theorem foldl_fixed {α β : Type} {op : List β → α → List β} (hop : ∀ b a, b <+: op b a) {l : List α}
    {b : List β} (h : l.foldl op b = b) : ∀ a ∈ l, op b a = b := by
  induction l with
  | nil => simp
  | cons a l ih =>
    have hrest : op b a <+: l.foldl op (op b a) :=
      foldlRecOn l op (prefix_refl _) fun _ hb a _ => hb.trans (hop _ a)
    have ha : op b a = b := by
      rw [foldl_cons] at h
      exact ((h ▸ hrest).eq_of_length_le (hop b a).length_le)
    rw [foldl_cons, ha] at h
    exact forall_mem_cons.mpr ⟨ha, ih h⟩

theorem prefix_usedRound : used <+: usedRound functions used :=
  usedRound_induction (fun _ _ _ h _ _ _ _ => h.trans (prefix_append _ _)) (prefix_refl _)

/-- A pass that adds nothing has found the name of every call. -/
theorem kept_of_calls (h : usedRound functions used = used) (hkept : Kept used caller)
    (hcalls : Calls functions caller name) : Kept used name := by
  by_cases hcore : isCore name = true
  · obtain ⟨fn, hf, rfl, i, hi, rfl⟩ := (calls_iff hcore).mp hcalls
    have hname : ∀ (used : List Str) (i : Instruction), used <+:
        (if isCore (coreCallName i) && !used.contains (coreCallName i) then used ++ [coreCallName i]
          else used) := by
      intro used i
      split_ifs
      · exact prefix_append _ _
      · exact prefix_refl _
    have hround := foldl_fixed (fun used fn => ?_) h fn hf
    · rw [if_pos (kept_iff.mpr hkept)] at hround
      have hcall := foldl_fixed hname hround i hi
      rw [hcore, Bool.true_and, ite_eq_right_iff] at hcall
      exact .inr (by simpa using hcall)
    · split_ifs
      · exact foldlRecOn _ _ (prefix_refl _) fun _ hb i _ => hb.trans (hname _ i)
      · exact prefix_refl _
  · exact .inl (Bool.eq_false_iff.mpr hcore)

/-- The names that a pass may add, each once. -/
def Listed (functions : List FunctionCode) (used : List Str) : Prop :=
  used.Nodup ∧ used ⊆ (functions.flatMap (·.instructions)).map coreCallName

theorem usedLoop_fixed {fuel : ℕ} (h : Listed functions used)
    (hfuel : (functions.flatMap (·.instructions)).length < used.length + fuel) :
    usedRound functions (usedLoop functions fuel used) = usedLoop functions fuel used := by
  induction fuel generalizing used with
  | zero =>
    have hle := (subperm_of_subset h.1 h.2).length_le
    rw [length_map] at hle
    omega
  | succ fuel ih =>
    have hpre := @prefix_usedRound functions used
    rw [usedLoop]
    split_ifs with hlen
    · exact (hpre.eq_of_length hlen.symm).symm
    · refine ih (usedRound_induction (fun used caller name hused _ hcalls hcore hnew => ?_) h) ?_
      · obtain ⟨fn, hf, -, i, hi, rfl⟩ := (calls_iff hcore).mp hcalls
        refine ⟨Nodup.append hused.1 (nodup_singleton _) (disjoint_singleton.mpr hnew),
          append_subset.mpr ⟨hused.2, cons_subset.mpr ⟨?_, nil_subset _⟩⟩⟩
        exact mem_map_of_mem (mem_flatMap.mpr ⟨fn, hf, hi⟩)
      · have := hpre.length_le
        omega

theorem mem_usedCoreFunctions :
    name ∈ usedCoreFunctions functions ↔ isCore name = true ∧ CoreReached functions name := by
  constructor
  · refine usedLoop_induction (P := fun used => ∀ name ∈ used, isCore name = true ∧
      CoreReached functions name) (fun used caller callee h hkept hcalls hcore _ => ?_) _
        (by simp) name
    rw [forall_mem_append, forall_mem_singleton]
    refine ⟨h, hcore, ?_⟩
    rcases hkept with hroot | hused
    · obtain ⟨fn, hf, rfl, -⟩ := id hcalls
      exact ⟨fn, hf, hroot, .single hcalls⟩
    · obtain ⟨fn, hf, hroot, hchain⟩ := (h caller hused).2
      exact ⟨fn, hf, hroot, hchain.tail hcalls⟩
  · rintro ⟨hcore, fn, -, hroot, hchain⟩
    have hfixed := @usedLoop_fixed functions [] _ ⟨nodup_nil, nil_subset _⟩
      (Nat.lt_add_left 0 (Nat.lt_succ_self _))
    have hkept : Kept (usedCoreFunctions functions) name := by
      clear hcore
      induction hchain with
      | single hcalls => exact kept_of_calls hfixed (.inl hroot) hcalls
      | tail _ hcalls ih => exact kept_of_calls hfixed ih hcalls
    exact hkept.resolve_left (by simp [hcore])

/-- The functions of a program before any is left out. -/
def emittedFunctions (program : List Declaration) : List FunctionCode :=
  program.filterMap (emitFunction program)

/-- The functions of a program that are kept, in their order, are those that are no core functions
and the core functions that chains of calls reach from them.  So the target of a call in a function
that is kept stays defined, and so does a callable constant that does not name a core function. -/
theorem compileProgram_keeps_reached (program : List Declaration) :
    (compileProgram program).functions <+ emittedFunctions program ∧
    (∀ function, function ∈ (compileProgram program).functions ↔
      function ∈ emittedFunctions program ∧
      (isCore function.name = false ∨ CoreReached (emittedFunctions program) function.name)) ∧
    ∀ name ∈ (emittedFunctions program).map FunctionCode.name,
      isCore name = false ∨ (∃ caller, Calls (compileProgram program).functions caller name) →
      name ∈ (compileProgram program).functions.map FunctionCode.name := by
  have hkeep (f : FunctionCode) : f ∈ (compileProgram program).functions ↔
      f ∈ emittedFunctions program ∧
      (isCore f.name = false ∨ CoreReached (emittedFunctions program) f.name) := by
    rw [compileProgram, mem_filter, kept_iff, Kept, mem_usedCoreFunctions]
    cases isCore f.name <;> simp [emittedFunctions]
  refine ⟨filter_sublist, hkeep, ?_⟩
  intro name hname htgt
  obtain ⟨f, hf, rfl⟩ := mem_map.mp hname
  refine mem_map.mpr ⟨f, (hkeep f).mpr ⟨hf, ?_⟩, rfl⟩
  rcases htgt with hroot | ⟨_, caller, hcaller, rfl, hcall⟩
  · exact .inl hroot
  obtain ⟨hdef, hkept⟩ := (hkeep caller).mp hcaller
  have hcalls : Calls (emittedFunctions program) caller.name f.name := ⟨caller, hdef, rfl, hcall⟩
  rcases hkept with hroot | ⟨root, hmem, hroot, hchain⟩
  · exact .inr ⟨caller, hdef, hroot, .single hcalls⟩
  · exact .inr ⟨root, hmem, hroot, hchain.tail hcalls⟩

/-- A program that calls one of its two core functions. -/
def coreProgram : List Declaration :=
  [.function (Str.ascii "main") [] true false (.tailValue [] (.call (Str.ascii "$core_a") [])),
    .function (Str.ascii "$core_a") [] true false (.noValue []),
    .function (Str.ascii "$core_b") [] true false (.noValue [])]

theorem compileProgram_keeps_reached_core :
    Str.ascii "$core_a" ∈ (compileProgram coreProgram).functions.map FunctionCode.name := by
  refine (compileProgram_keeps_reached coreProgram).2.2 _ (by decide +kernel)
    (.inr ⟨Str.ascii "main", ?_⟩)
  exact ⟨_, mem_cons_self, rfl, 0, .inl mem_cons_self⟩

end Panackelty.Compiler
