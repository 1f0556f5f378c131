import Mathlib.Order.Bounds.Basic
import Panackelty.Vm.VerifierAgreement

/-!
# The order of the functions and local effects

`infer_local_effects` marks functions in passes until a pass marks none.  The marks are the least
set that the rule of the contract cannot extend, so a recursion marks no function by itself, and
where the names are distinct the order of the functions does not matter. -/

namespace Panackelty.Bytecode.Contract

open Library List

variable {R : Registry} {fs fs' : List Outline} {f : Outline} {name : Bytes} {k k' : ℕ}

theorem isLeast_localEffects :
    IsLeast {marks | ∀ k, localRule R fs marks k = true → k ∈ marks} (localEffects R fs) :=
  ⟨fun _ => (mem_localEffects_iff R fs).mpr,
    fun _ h => Marking.result_subset (localRule_increasing R fs) fun k _ => h k⟩

/-- A group whose steps change local state only through calls inside the group is not marked. -/
theorem disjoint_localEffects {group : Finset ℕ} (h : ∀ k ∈ group, ∀ f, fs[k]? = some f →
    ∀ s ∈ f.body, stepLocal R fs (localEffects R fs \ group) s = false) :
    Disjoint group (localEffects R fs) := by
  have hclo : localEffects R fs ⊆ localEffects R fs \ group := by
    refine isLeast_localEffects.2 fun k hrule => Finset.mem_sdiff.mpr ⟨?_, fun hk => ?_⟩
    · exact isLeast_localEffects.1 k (localRule_increasing R fs Finset.sdiff_subset hrule)
    · rw [localRule] at hrule
      cases hf : fs[k]? with
      | none =>
        rw [hf] at hrule
        cases hrule
      | some f =>
        simp only [hf, Bool.and_eq_true, any_eq_true] at hrule
        obtain ⟨-, s, hs, hlocal⟩ := hrule
        cases hlocal.symm.trans (h k hk f hf s hs)
  exact Finset.disjoint_right.mpr fun k hk => (Finset.mem_sdiff.mp (hclo hk)).2

section Order

variable (hnames : (fs.map Outline.name).Nodup) (hperm : fs ~ fs')

include hnames hperm

/-- A call that reaches a function reaches it in another order. -/
theorem lookup_perm (h : lookup fs name = some k) :
    ∃ k', lookup fs' name = some k' ∧ fs'[k']? = fs[k]? := by
  obtain ⟨f, hf, hname⟩ := (lookup_eq_some_iff hnames).mp h
  obtain ⟨k', hk'⟩ := mem_iff_getElem?.mp (hperm.mem_iff.mp (mem_of_getElem? hf))
  exact ⟨k', (lookup_eq_some_iff ((hperm.map _).nodup_iff.mp hnames)).mpr ⟨f, hk', hname⟩,
    hk'.trans hf.symm⟩

theorem calleePure_perm (h : calleePure R fs name) : calleePure R fs' name = true := by
  rw [calleePure] at h ⊢
  cases hR : R name with
  | some row =>
    rw [hR] at h
    exact h
  | none =>
    simp only [hR, Option.any_eq_true] at h ⊢
    obtain ⟨k, hk, hpure⟩ := h
    obtain ⟨k', hk', hsame⟩ := lookup_perm hnames hperm hk
    exact ⟨k', hk', by rwa [hsame]⟩

/-- The functions that are marked in the other order. -/
def marksOf (R : Registry) (fs fs' : List Outline) : Finset ℕ :=
  (range fs.length).toFinset.filter fun k => ∃ k' ∈ localEffects R fs', fs'[k']? = fs[k]?

theorem resource_perm (h : resource R fs (marksOf R fs fs') name) :
    resource R fs' (localEffects R fs') name = true := by
  rw [resource] at h ⊢
  cases hR : R name with
  | some row =>
    rw [hR] at h
    exact h
  | none =>
    simp only [hR, Option.any_eq_true, decide_eq_true_eq, marksOf, Finset.mem_filter] at h ⊢
    obtain ⟨k, hk, -, k', hmark, hsame⟩ := h
    obtain ⟨f, hf, hname⟩ := (lookup_eq_some_iff hnames).mp hk
    exact ⟨k', (lookup_eq_some_iff ((hperm.map _).nodup_iff.mp hnames)).mpr
      ⟨f, hsame.trans hf, hname⟩, hmark⟩

/-- The marks of the other order are closed in this one. -/
theorem localEffects_subset_marksOf : localEffects R fs ⊆ marksOf R fs fs' := by
  refine isLeast_localEffects.2 fun k hrule => ?_
  cases hf : fs[k]? with
  | none =>
    rw [localRule, hf] at hrule
    cases hrule
  | some f =>
    obtain ⟨k', hk'⟩ := mem_iff_getElem?.mp (hperm.mem_iff.mp (mem_of_getElem? hf))
    have hrule' := localRule_transfer (fun _ => resource_perm hnames hperm)
      (fun _ => calleePure_perm hnames hperm) (hk'.trans hf.symm) hrule
    rw [marksOf, Finset.mem_filter, mem_toFinset, mem_range]
    exact ⟨(List.getElem?_eq_some_iff.mp hf).1, k', (mem_localEffects_iff R fs').mpr hrule',
      hk'.trans hf.symm⟩

theorem mem_localEffects_perm (hf : fs[k]? = some f) (hf' : fs'[k']? = some f)
    (h : k ∈ localEffects R fs) : k' ∈ localEffects R fs' := by
  have hmem := localEffects_subset_marksOf hnames hperm h
  rw [marksOf, Finset.mem_filter] at hmem
  obtain ⟨-, j, hj, hsame⟩ := hmem
  have hnames' : (fs'.map Outline.name).Nodup := (hperm.map _).nodup_iff.mp hnames
  have hkj : k' = j := (getElem?_inj (List.getElem?_eq_some_iff.mp hf').1 (hnames'.of_map _)).mp
    (hf'.trans (hsame.trans hf).symm)
  rwa [hkj]

end Order

end Panackelty.Bytecode.Contract

namespace Panackelty.Vm

open Library List
open Bytecode.Contract (Outline localRule localRule_increasing stepLocal isLeast_localEffects
  disjoint_localEffects mem_localEffects_perm)

/-- `infer_local_effects`: every bound on the passes above the number of functions gives the same
marks, which are the flags and the least set closed under the rule; a group that changes local state
only through itself is not marked; with distinct names a function has the same flag in every order.
-/
theorem inferLocalEffects_least (fns : List Function) :
    (∀ n, fns.length < n → Marking.run (inferFunction ⟨fns, false⟩) (range fns.length) n ∅ =
      localMarks ⟨fns, false⟩) ∧ (∀ k f, (inferLocalEffects ⟨fns, false⟩).functions[k]? = some f →
      (f.localEffect = true ↔ k ∈ localMarks ⟨fns, false⟩)) ∧
    IsLeast {marks | ∀ k, localRule registry (fns.map outline) marks k = true → k ∈ marks}
      (localMarks ⟨fns, false⟩) ∧ (∀ group, (∀ k ∈ group, ∀ f, fns[k]? = some f → ∀ i ∈ f.ins,
        stepLocal registry (fns.map outline) (localMarks ⟨fns, false⟩ \ group) (step i) = false) →
      Disjoint group (localMarks ⟨fns, false⟩)) ∧
    ∀ fns', fns ~ fns' → (fns.map Function.name).Nodup → ∀ k k' f, fns[k]? = some f →
      fns'[k']? = some f → (k ∈ localMarks ⟨fns, false⟩ ↔ k' ∈ localMarks ⟨fns', false⟩) := by
  have hmarks : ∀ fns, localMarks ⟨fns, false⟩ = _ := fun _ => localMarks_eq rfl
  refine ⟨fun n hn => ?_, fun k f hf => ?_, ?_, fun group h => ?_, fun fns' hperm hnames => ?_⟩
  · refine Marking.run_eq_result ?_ (by rwa [length_range])
    rw [inferFunction_eq rfl]
    exact localRule_increasing _ _
  · rw [getElem?_inferLocalEffects hf, decide_eq_true_iff]
  · rw [hmarks]
    exact isLeast_localEffects
  · rw [hmarks] at h ⊢
    refine disjoint_localEffects fun k hk f hf s hs => ?_
    rw [getElem?_map, Option.map_eq_some_iff] at hf
    obtain ⟨g, hg, rfl⟩ := hf
    obtain ⟨i, hi, rfl⟩ := mem_map.mp hs
    exact h k hk g hg i hi
  · intro k k' f hf hf'
    have hout : ∀ {fns : List Function} {k}, fns[k]? = some f →
        (fns.map outline)[k]? = some (outline f) :=
      fun h => by rw [getElem?_map, h, Option.map_some]
    have hbytes : ∀ {fns : List Function}, (fns.map Function.name).Nodup →
        ((fns.map outline).map Outline.name).Nodup := fun h => by
      rw [map_map]
      have := h.map (f := CString.bytes) fun _ _ => CString.ext_bytes
      rwa [map_map] at this
    have hnames' := (hperm.map Function.name).nodup_iff.mp hnames
    rw [hmarks, hmarks]
    exact ⟨mem_localEffects_perm (hbytes hnames) (hperm.map _) (hout hf) (hout hf'),
      mem_localEffects_perm (hbytes hnames') (hperm.symm.map _) (hout hf') (hout hf)⟩

/-- Calls of a builtin on local state and of the name. -/
def callsThrough (name : String) : Function :=
  ⟨.ascii "a", false, false, false, [],
    [.call (.ascii "http_state_setup_error") 1, .call (.ascii name) 0, .ret]⟩

/-- A function that calls itself. -/
def recursive (pure : Bool) : Function :=
  ⟨.ascii "f", pure, false, false, [], [.call (.ascii "f") 0, .ret]⟩

theorem inferLocalEffects_least_recursive : let fns := [callsThrough "f", recursive false]
    Marking.run (inferFunction ⟨fns, false⟩) (range 2) 3 ∅ = localMarks ⟨fns, false⟩ ∧
    Disjoint {1} (localMarks ⟨fns, false⟩) ∧ (1 ∈ localMarks ⟨fns, false⟩ ↔
      0 ∈ localMarks ⟨[recursive false, callsThrough "f"], false⟩) := by
  intro fns
  obtain ⟨hrun, -, -, hgroup, hperm⟩ := inferLocalEffects_least fns
  refine ⟨hrun 3 (by decide), hgroup {1} ?_, hperm _ (.swap _ _ _) (by decide) 1 0 _ rfl rfl⟩
  intro k hk
  cases Finset.mem_singleton.mp hk
  rintro _ ⟨⟩
  decide +kernel

/-- Of two functions of one name the first is called, so the order decides; `verify` then
refuses such a program. -/
theorem inferLocalEffects_duplicate : [callsThrough "f", recursive true, recursive false] ~
      [callsThrough "f", recursive false, recursive true] ∧
    (inferLocalEffects ⟨[callsThrough "f", recursive true, recursive false], false⟩).functions.map
      Function.localEffect = [true, false, false] ∧
    (inferLocalEffects ⟨[callsThrough "f", recursive false, recursive true], false⟩).functions.map
      Function.localEffect = [false, false, false] :=
  ⟨.cons _ (.swap _ _ _), by decide +kernel, by decide +kernel⟩

end Panackelty.Vm
