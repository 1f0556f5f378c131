import Panackelty.Compiler.ModuleResolution

/-!
# The contract of module resolution

The walk reports no error exactly where every import has a target and no module imports itself, in
any number of steps; what it has completed is then a topological order.  On such a graph the
resolution of a name never closes a cycle, and it leaves the resolving module's own imports only
along public declarations and public imports.

* `ModuleBindingGraph.Imports`, `TargetsExist`, `Acyclic`: the graph in its own terms.
* `Walked`: the invariant of the walk; `visit_walked` for what a visit completes, `visit_none` for
  why it succeeds.
* `Exports`: what other modules may reach; `resolveInner_step`, `resolveInner_exports` for one
  resolution.
* `moduleGraph_contract`.
-/

namespace Panackelty.Compiler

open Library List ResolvedModuleTarget

variable {state : ModuleGraphWalk} {identity owner target : ModuleIdentity} {index : ℕ}

/-! ## The graph -/

namespace ModuleBindingGraph

variable (graph : ModuleBindingGraph)

/-- The target of an import is the target of its only edge. -/
def ImportTarget (owner : ModuleIdentity) (index : ℕ) (target : ModuleIdentity) : Prop :=
  graph.edges.filter (fun edge => edge.owner = owner ∧ edge.index = index) =
    [⟨owner, index, target⟩]

/-- A module imports another. -/
def Imports (owner target : ModuleIdentity) : Prop :=
  ∃ module ∈ graph.modules, module.identity = owner ∧
    ∃ index < module.imports.length, graph.ImportTarget owner index target

/-- Every import has a target, which is a module of the graph.  An import with two edges counts as
having no target; the loader makes one edge for each import. -/
def TargetsExist : Prop :=
  ∀ module ∈ graph.modules, ∀ index < module.imports.length,
    ∃ target, graph.ImportTarget module.identity index target ∧ target ∈ graph.identities

/-- No module imports itself, in any number of steps. -/
def Acyclic : Prop := ∀ identity, ¬ Relation.TransGen graph.Imports identity identity

/-- The modules have distinct identities. -/
def Distinct : Prop := graph.identities.Nodup

variable {graph}

theorem bindingGraphTarget_eq_ok :
    bindingGraphTarget graph owner index = .ok target ↔ graph.ImportTarget owner index target := by
  unfold bindingGraphTarget ImportTarget
  constructor
  · intro h
    split at h
    · cases h
    · next edge hfilt =>
      cases h
      have hmem : edge ∈ graph.edges.filter fun edge =>
          edge.owner = owner ∧ edge.index = index := by
        rw [hfilt]
        exact mem_singleton_self edge
      rw [mem_filter, decide_eq_true_eq] at hmem
      obtain ⟨_, rfl, rfl⟩ := hmem
      exact hfilt
    · cases h
  · intro h
    rw [h]

theorem bindingGraphModule_eq_ok (hdist : graph.Distinct) {module : ModuleBindings}
    (h : module ∈ graph.modules) : bindingGraphModule graph module.identity = .ok module := by
  have hfilt : graph.modules.filter (fun other => other.identity = module.identity) = [module] := by
    have hnodup : graph.identities.Nodup := hdist
    unfold identities at hnodup
    generalize graph.modules = mods at h hnodup
    induction mods with
    | nil => cases h
    | cons other mods ih =>
      rw [map_cons, nodup_cons] at hnodup
      rcases mem_cons.mp h with rfl | hmem
      · rw [filter_cons_of_pos (by simp), filter_eq_nil_iff.mpr]
        intro candidate hcandidate heq
        rw [decide_eq_true_eq] at heq
        exact hnodup.1 (mem_map.mpr ⟨candidate, hcandidate, heq⟩)
      · have hne : other.identity ≠ module.identity := fun heq =>
          hnodup.1 (mem_map.mpr ⟨module, hmem, heq.symm⟩)
        rw [filter_cons_of_neg (by simpa using hne)]
        exact ih hmem hnodup.2
  unfold bindingGraphModule
  rw [hfilt]

theorem exists_module (hdist : graph.Distinct) (h : identity ∈ graph.identities) :
    ∃ module ∈ graph.modules, module.identity = identity ∧
      bindingGraphModule graph identity = .ok module := by
  obtain ⟨module, hmem, rfl⟩ := mem_map.mp h
  exact ⟨module, hmem, rfl, bindingGraphModule_eq_ok hdist hmem⟩

theorem imports_of_target {module : ModuleBindings}
    (hmod : bindingGraphModule graph owner = .ok module) (hidx : index < module.imports.length)
    (htgt : bindingGraphTarget graph owner index = .ok target) : graph.Imports owner target :=
  ⟨module, (mem_of_bindingGraphModule hmod).1, (mem_of_bindingGraphModule hmod).2, index, hidx,
    bindingGraphTarget_eq_ok.mp htgt⟩

end ModuleBindingGraph

open ModuleBindingGraph

/-! ## What the walk completes -/

section Walk

variable {graph : ModuleBindingGraph}

/-- A module whose imports all have targets. -/
def Resolved (graph : ModuleBindingGraph) (identity : ModuleIdentity) : Prop :=
  ∃ module, bindingGraphModule graph identity = .ok module ∧
    ∀ index < module.imports.length, ∃ target, bindingGraphTarget graph identity index = .ok target

/-- What the walk has completed is in order, and every import of it has a target. -/
structure Walked (graph : ModuleBindingGraph) (state : ModuleGraphWalk) : Prop where
  ordered : Ordered graph.Imports state.completed
  resolved : ∀ identity ∈ state.completed, Resolved graph identity

/-- What a part of the walk does if it reports no error: it completes some modules more, but none of
the path. -/
structure Advances (graph : ModuleBindingGraph) (path : List ModuleIdentity)
    (state next : ModuleGraphWalk) : Prop where
  walked : Walked graph next
  subset : state.completed ⊆ next.completed
  path : ∀ identity ∈ path, identity ∉ state.completed → identity ∉ next.completed

theorem Advances.refl {path : List ModuleIdentity} (h : Walked graph state) :
    Advances graph path state state :=
  ⟨h, List.Subset.refl _, fun _ _ hnot => hnot⟩

theorem Advances.trans {path : List ModuleIdentity} {middle next : ModuleGraphWalk}
    (h : Advances graph path state middle) (h' : Advances graph path middle next) :
    Advances graph path state next :=
  ⟨h'.walked, List.Subset.trans h.subset h'.subset,
    fun identity hpath hnot => h'.path identity hpath (h.path identity hpath hnot)⟩

theorem visitImport_of_error {visit : ModuleIdentity → ModuleGraphWalk → ModuleGraphWalk}
    {current : ModuleGraphWalk} (index : ℕ) (h : current.error ≠ none) :
    visitImport graph identity visit current index = current := by
  unfold visitImport
  cases herr : current.error with
  | none => exact absurd herr h
  | some error => rfl

theorem foldl_visitImport_of_error {visit : ModuleIdentity → ModuleGraphWalk → ModuleGraphWalk}
    {current : ModuleGraphWalk} (indices : List ℕ) (h : current.error ≠ none) :
    indices.foldl (visitImport graph identity visit) current = current := by
  induction indices with
  | nil => rfl
  | cons index indices ih => rw [foldl_cons, visitImport_of_error index h, ih]

/-- The loop over the imports, from what a visit of a target does. -/
theorem foldl_visitImport_advances {identity : ModuleIdentity} {path : List ModuleIdentity}
    {visit : ModuleIdentity → ModuleGraphWalk → ModuleGraphWalk}
    (hvisit : ∀ target cur, cur.error = none → Walked graph cur → (visit target cur).error = none →
      Advances graph path cur (visit target cur) ∧ target ∈ (visit target cur).completed)
    (indices : List ℕ) : ∀ {state : ModuleGraphWalk}, state.error = none → Walked graph state →
    (indices.foldl (visitImport graph identity visit) state).error = none →
    Advances graph path state (indices.foldl (visitImport graph identity visit) state) ∧
      ∀ index ∈ indices, ∃ target, bindingGraphTarget graph identity index = .ok target ∧
        target ∈ (indices.foldl (visitImport graph identity visit) state).completed := by
  induction indices with
  | nil =>
    intro state _ hwalk _
    exact ⟨.refl hwalk, fun index hmem => by cases hmem⟩
  | cons index indices ih =>
    intro state hstate hwalk hres
    rw [foldl_cons] at hres ⊢
    have hnext : (visitImport graph identity visit state index).error = none := by
      by_contra hne
      rw [foldl_visitImport_of_error indices hne] at hres
      exact hne hres
    have hstep : ∃ target, bindingGraphTarget graph identity index = .ok target ∧
        Advances graph path state (visitImport graph identity visit state index) ∧
          target ∈ (visitImport graph identity visit state index).completed := by
      unfold visitImport at hnext ⊢
      rw [hstate] at hnext ⊢
      cases htgt : bindingGraphTarget graph identity index with
      | error msg =>
        rw [htgt] at hnext
        cases hnext
      | ok target =>
        simp only [htgt] at hnext ⊢
        exact ⟨target, rfl, hvisit target state hstate hwalk hnext⟩
    obtain ⟨target, htgt, hadv, hmem⟩ := hstep
    obtain ⟨hrest, hoths⟩ := ih hnext hadv.walked hres
    refine ⟨hadv.trans hrest, ?_⟩
    intro other hoth
    rcases mem_cons.mp hoth with rfl | hoth
    · exact ⟨target, htgt, hrest.subset hmem⟩
    · exact hoths other hoth

/-- A visit without an error completes the module, after everything that it imports. -/
theorem visit_walked (size : ℕ) : ∀ {identity : ModuleIdentity} {stack : List ModuleIdentity}
    {state : ModuleGraphWalk}, pending graph.identities stack = size → state.error = none →
    Walked graph state → (bindingGraphVisit graph identity stack state).error = none →
    Advances graph stack state (bindingGraphVisit graph identity stack state) ∧
      identity ∈ (bindingGraphVisit graph identity stack state).completed := by
  induction size using Nat.strongRecOn with
  | ind size ih =>
    intro identity stack state hsize hstate hwalk hres
    by_cases hcompl : identity ∈ state.completed
    · rw [bindingGraphVisit, if_pos hcompl]
      exact ⟨.refl hwalk, hcompl⟩
    obtain ⟨hstk, module, hmod⟩ := exists_module_of_visit hres hcompl
    rw [bindingGraphVisit_of_module hcompl hstk hmod] at hres ⊢
    have hloop := @foldl_visitImport_advances graph identity (stack ++ [identity])
      (fun target cur => bindingGraphVisit graph target (stack ++ [identity]) cur)
      (fun target cur hcur hwalk hnone =>
        ih _ (hsize ▸ pending_snoc_lt (identity_mem hmod) hstk) rfl hcur hwalk hnone)
      (range module.imports.length) state hstate hwalk
    generalize (range module.imports.length).foldl (visitImport graph identity fun target cur =>
      bindingGraphVisit graph target (stack ++ [identity]) cur) state = cur at hloop hres
    unfold completeModule at hres ⊢
    cases hcur : cur.error with
    | some error =>
      simp only [hcur] at hres
      cases hres
    | none =>
      obtain ⟨hadv, htgts⟩ := hloop hcur
      refine ⟨⟨⟨?_, ?_⟩, ?_, ?_⟩, mem_append_right _ (mem_singleton_self identity)⟩
      · -- the module was on the path of its imports, so none of them has completed it
        refine .snoc hadv.walked.ordered
          (hadv.path identity (mem_append_right _ (mem_singleton_self identity)) hcompl) ?_
        rintro target ⟨other, hoth, hid, index, hidx, htgt⟩
        rw [eq_of_bindingGraphModule hmod hoth hid] at hidx
        obtain ⟨found, hfound, hmem⟩ := htgts index (mem_range.mpr hidx)
        rw [bindingGraphTarget_eq_ok.mpr htgt] at hfound
        cases hfound
        exact hmem
      · intro other hoth
        rcases mem_append.mp hoth with hoth | hoth
        · exact hadv.walked.resolved other hoth
        rw [mem_singleton.mp hoth]
        refine ⟨module, hmod, fun index hidx => ?_⟩
        obtain ⟨target, htgt, _⟩ := htgts index (mem_range.mpr hidx)
        exact ⟨target, htgt⟩
      · exact List.Subset.trans hadv.subset (subset_append_left _ _)
      · intro other hoth hnot hmem
        rcases mem_append.mp hmem with hmem | hmem
        · exact hadv.path other (mem_append_left _ hoth) hnot hmem
        · rw [mem_singleton.mp hmem] at hoth
          exact hstk hoth

/-! ## Why the walk succeeds -/

/-- Where every import has a target and there is no cycle, the loop over the imports reports no
error if the visits of the targets do not. -/
theorem foldl_visitImport_none {identity : ModuleIdentity}
    {visit : ModuleIdentity → ModuleGraphWalk → ModuleGraphWalk} (indices : List ℕ)
    (htgts : ∀ index ∈ indices, ∃ target, bindingGraphTarget graph identity index = .ok target ∧
      ∀ cur, cur.error = none → (visit target cur).error = none) :
    ∀ {state : ModuleGraphWalk}, state.error = none →
      (indices.foldl (visitImport graph identity visit) state).error = none := by
  induction indices with
  | nil => exact fun h => h
  | cons index indices ih =>
    intro state hstate
    obtain ⟨target, htgt, hvisit⟩ := htgts index mem_cons_self
    have hstep : visitImport graph identity visit state index = visit target state := by
      simp only [visitImport, hstate, htgt]
    rw [foldl_cons, hstep]
    exact ih (fun other hoth => htgts other (mem_cons_of_mem _ hoth)) (hvisit state hstate)

theorem visit_none (hdist : graph.Distinct) (hexist : graph.TargetsExist)
    (hacyc : graph.Acyclic) (size : ℕ) : ∀ {identity : ModuleIdentity}
    {stack : List ModuleIdentity} {state : ModuleGraphWalk},
    pending graph.identities stack = size → identity ∈ graph.identities →
    Leads graph.Imports stack identity → state.error = none →
    (bindingGraphVisit graph identity stack state).error = none := by
  induction size using Nat.strongRecOn with
  | ind size ih =>
    intro identity stack state hsize hmem hleads hstate
    by_cases hcompl : identity ∈ state.completed
    · rw [bindingGraphVisit, if_pos hcompl]
      exact hstate
    obtain ⟨module, hin, rfl, hmod⟩ := exists_module hdist hmem
    have hstk := hleads.notMem (hacyc module.identity)
    rw [bindingGraphVisit_of_module hcompl hstk hmod, completeModule]
    have hloop := @foldl_visitImport_none graph module.identity
      (fun target cur => bindingGraphVisit graph target (stack ++ [module.identity]) cur)
      (range module.imports.length) ?_ state hstate
    · rw [hloop]
    · intro index hidx
      obtain ⟨target, htgt, htargetmem⟩ := hexist module hin index (mem_range.mp hidx)
      have hfound := bindingGraphTarget_eq_ok.mpr htgt
      refine ⟨target, hfound, fun cur hcur => ?_⟩
      have himps := imports_of_target hmod (mem_range.mp hidx) hfound
      exact ih _ (hsize ▸ pending_snoc_lt hmem hstk) rfl htargetmem (hleads.snoc (.single himps))
        hcur

/-! ## The whole walk -/

theorem walkModule_of_none (module : ModuleBindings) (h : state.error = none) :
    walkModule graph state module = bindingGraphVisit graph module.identity [] state := by
  simp only [walkModule, h]

theorem foldl_walkModule_of_error (mods : List ModuleBindings) (h : state.error ≠ none) :
    mods.foldl (walkModule graph) state = state := by
  induction mods with
  | nil => rfl
  | cons module mods ih =>
    have hkeep : walkModule graph state module = state := by
      unfold walkModule
      cases herr : state.error with
      | none => exact absurd herr h
      | some error => rfl
    rw [foldl_cons, hkeep, ih]

/-- A walk without an error has completed the modules that it started at. -/
theorem foldl_walkModule_walked (mods : List ModuleBindings) :
    ∀ {state : ModuleGraphWalk}, state.error = none → Walked graph state →
    (mods.foldl (walkModule graph) state).error = none →
    Advances graph [] state (mods.foldl (walkModule graph) state) ∧ ∀ module ∈ mods,
        module.identity ∈ (mods.foldl (walkModule graph) state).completed := by
  induction mods with
  | nil =>
    intro state _ hwalk _
    exact ⟨.refl hwalk, fun module hmem => by cases hmem⟩
  | cons module mods ih =>
    intro state hstate hwalk hres
    rw [foldl_cons, walkModule_of_none module hstate] at hres ⊢
    have hnext : (bindingGraphVisit graph module.identity [] state).error = none := by
      by_contra hne
      rw [foldl_walkModule_of_error mods hne] at hres
      exact hne hres
    obtain ⟨hadv, hmem⟩ := visit_walked _ rfl hstate hwalk hnext
    obtain ⟨hrest, hoths⟩ := ih hnext hadv.walked hres
    refine ⟨hadv.trans hrest, fun other hoth => ?_⟩
    rcases mem_cons.mp hoth with rfl | hoth
    · exact hrest.subset hmem
    · exact hoths other hoth

theorem walked_nil : Walked graph ⟨[], none⟩ := ⟨.nil, fun identity hmem => by cases hmem⟩

theorem foldl_walkModule_none (hdist : graph.Distinct) (hexist : graph.TargetsExist)
    (hacyc : graph.Acyclic) (mods : List ModuleBindings) (h : mods ⊆ graph.modules) :
    ∀ {state : ModuleGraphWalk}, state.error = none →
      (mods.foldl (walkModule graph) state).error = none := by
  induction mods with
  | nil => exact fun hstate => hstate
  | cons module mods ih =>
    intro state hstate
    rw [foldl_cons, walkModule_of_none module hstate]
    refine ih (fun other hoth => h (mem_cons_of_mem _ hoth)) ?_
    exact visit_none hdist hexist hacyc _ rfl
      (mem_map.mpr ⟨module, h mem_cons_self, rfl⟩) (.nil _) hstate

theorem walkModuleGraph_walked (h : (walkModuleGraph graph).error = none) :
    Walked graph (walkModuleGraph graph) ∧
      ∀ identity, identity ∈ (walkModuleGraph graph).completed ↔ identity ∈ graph.identities := by
  obtain ⟨hadv, hall⟩ := foldl_walkModule_walked graph.modules rfl walked_nil h
  refine ⟨hadv.walked, fun identity => ⟨fun hmem => ?_, fun hmem => ?_⟩⟩
  · obtain ⟨module, hmod, _⟩ := hadv.walked.resolved identity hmem
    exact identity_mem hmod
  · obtain ⟨module, hin, rfl⟩ := mem_map.mp hmem
    exact hall module hin

theorem walkModuleGraph_none_iff (hdist : graph.Distinct) :
    (walkModuleGraph graph).error = none ↔ graph.TargetsExist ∧ graph.Acyclic := by
  constructor
  · intro h
    obtain ⟨hwalk, hall⟩ := walkModuleGraph_walked h
    constructor
    · intro module hin index hidx
      have hcompl := (hall module.identity).mpr (mem_map.mpr ⟨module, hin, rfl⟩)
      obtain ⟨found, hfound, htgts⟩ := hwalk.resolved _ hcompl
      rw [eq_of_bindingGraphModule hfound hin rfl] at hidx
      obtain ⟨target, htgt⟩ := htgts index hidx
      refine ⟨target, bindingGraphTarget_eq_ok.mp htgt, (hall target).mp ?_⟩
      exact hwalk.ordered.mem_of_next hcompl (imports_of_target hfound hidx htgt)
    · refine hwalk.ordered.acyclic ?_
      rintro owner target ⟨module, hin, rfl, _⟩
      exact (hall module.identity).mpr (mem_map.mpr ⟨module, hin, rfl⟩)
  · rintro ⟨hexist, hacyc⟩
    exact foldl_walkModule_none hdist hexist hacyc graph.modules (List.Subset.refl _) rfl

end Walk

/-! ## What other modules may reach -/

/-- A module lets others reach its public declarations, the variants of its public enums, the
modules of its public imports and what these modules let others reach. -/
inductive Exports (graph : ModuleBindingGraph) : ModuleIdentity → ResolvedModuleTarget → Prop
  | declaration {module : ModuleBindings} {declaration : ModuleDeclarationBinding} :
      module ∈ graph.modules → declaration ∈ module.declarations → declaration.isPublic = true →
      Exports graph module.identity (.declarationTarget declaration)
  | variant {module : ModuleBindings} {enum variant : ModuleDeclarationBinding} :
      module ∈ graph.modules → enum ∈ module.declarations → enum.isPublic = true →
      enum.kind = .enum → variant ∈ module.declarations →
      variant.kind = .variant enum.identity.name →
      Exports graph module.identity (.declarationTarget variant)
  | module {module : ModuleBindings} {imported : ModuleImportBinding} {index : ℕ}
      {target : ModuleIdentity} :
      module ∈ graph.modules → (imported, index) ∈ module.imports.zipIdx →
      imported.isPublic = true → graph.ImportTarget module.identity index target →
      Exports graph module.identity (.namespaceTarget target)
  | through {module : ModuleBindings} {imported : ModuleImportBinding} {index : ℕ}
      {target : ModuleIdentity} {reached : ResolvedModuleTarget} :
      module ∈ graph.modules → (imported, index) ∈ module.imports.zipIdx →
      imported.isPublic = true → graph.ImportTarget module.identity index target →
      Exports graph target reached → Exports graph module.identity reached

theorem Exports.trans {graph : ModuleBindingGraph} {inner : ModuleIdentity}
    {reached : ResolvedModuleTarget} (h : Exports graph identity (.namespaceTarget inner))
    (hinner : Exports graph inner reached) : Exports graph identity reached := by
  generalize htgt : namespaceTarget inner = target at h
  induction h with
  | declaration _ _ _ | variant _ _ _ _ _ _ => cases htgt
  | module hmod himp hpub himport =>
    cases htgt
    exact .through hmod himp hpub himport hinner
  | through hmod himp hpub himport _ ih => exact .through hmod himp hpub himport (ih htgt)

/-- What a module reaches through its own declarations and imports. -/
inductive Reached (graph : ModuleBindingGraph) (module : ModuleBindings) :
    ResolvedModuleTarget → Prop
  | own {declaration : ModuleDeclarationBinding} : declaration ∈ module.declarations →
      Reached graph module (.declarationTarget declaration)
  | module {imported : ModuleImportBinding} {index : ℕ} {target : ModuleIdentity} :
      (imported, index) ∈ module.imports.zipIdx →
      graph.ImportTarget module.identity index target →
      Reached graph module (.namespaceTarget target)
  | imported {imported : ModuleImportBinding} {index : ℕ} {target : ModuleIdentity}
      {reached : ResolvedModuleTarget} :
      (imported, index) ∈ module.imports.zipIdx →
      graph.ImportTarget module.identity index target → Exports graph target reached →
      Reached graph module reached

/-! ## Resolution -/

section Resolution

variable {graph : ModuleBindingGraph}

theorem importTarget_unique {other : ModuleIdentity} (h : graph.ImportTarget owner index target)
    (h' : graph.ImportTarget owner index other) : target = other := by
  unfold ImportTarget at h h'
  cases h.symm.trans h'
  rfl

theorem mem_of_imports (hexist : graph.TargetsExist) (h : graph.Imports owner target) :
    target ∈ graph.identities := by
  obtain ⟨module, hin, rfl, index, hidx, htgt⟩ := h
  obtain ⟨other, hoth, hmem⟩ := hexist module hin index hidx
  rw [importTarget_unique htgt hoth]
  exact hmem

theorem mem_of_transGen (hexist : graph.TargetsExist)
    (h : Relation.TransGen graph.Imports owner target) : target ∈ graph.identities := by
  cases h with
  | single h | tail _ h => exact mem_of_imports hexist h

theorem imports_of_zipIdx {module : ModuleBindings} (hmod : module ∈ graph.modules)
    {imported : ModuleImportBinding} (himp : (imported, index) ∈ module.imports.zipIdx)
    (htgt : graph.ImportTarget module.identity index target) :
    graph.Imports module.identity target := by
  have hidx := (mem_zipIdx himp).2.1
  rw [Nat.zero_add] at hidx
  exact ⟨module, hmod, rfl, index, hidx, htgt⟩

theorem Exports.imports {inner : ModuleIdentity}
    (h : Exports graph identity (.namespaceTarget inner)) :
    Relation.TransGen graph.Imports identity inner := by
  generalize htgt : namespaceTarget inner = target at h
  induction h with
  | declaration _ _ _ | variant _ _ _ _ _ _ => cases htgt
  | module hmod himp _ himport =>
    cases htgt
    exact .single (imports_of_zipIdx hmod himp himport)
  | through hmod himp _ himport _ ih => exact .head (imports_of_zipIdx hmod himp himport) (ih htgt)

/-- A variant of an enum, in the module of the enum. -/
structure VariantOf (graph : ModuleBindingGraph) (enum variant : ModuleDeclarationBinding) :
    Prop where
  kind : enum.kind = .enum
  module : ∃ module, bindingGraphModule graph enum.identity.module = .ok module ∧
    variant ∈ module.declarations
  parent : variant.kind = .variant enum.identity.name

theorem VariantOf.mem {module : ModuleBindings} (hmod : module ∈ graph.modules)
    {enum variant : ModuleDeclarationBinding} (henum : enum ∈ module.declarations)
    (h : VariantOf graph enum variant) : variant ∈ module.declarations := by
  obtain ⟨found, hfound, hmem⟩ := h.module
  rw [eq_of_bindingGraphModule hfound hmod (module.owned enum henum).symm]
  exact hmem

theorem Exports.member {enum variant : ModuleDeclarationBinding}
    (h : Exports graph identity (.declarationTarget enum)) (hvar : VariantOf graph enum variant) :
    Exports graph identity (.declarationTarget variant) := by
  generalize htgt : declarationTarget enum = target at h
  induction h with
  | declaration hmod hmem hpub =>
    cases htgt
    exact .variant hmod hmem hpub hvar.kind (hvar.mem hmod hmem) hvar.parent
  | variant _ _ _ _ _ hkind =>
    cases htgt
    cases hvar.kind.symm.trans hkind
  | module _ _ _ _ => cases htgt
  | through hmod himp hpub himport _ ih => exact .through hmod himp hpub himport (ih htgt)

/-- A result that reports no cycle and reaches only some targets. -/
def Sound (P : ResolvedModuleTarget → Prop) : Except ResolutionError ResolvedModuleTarget → Prop
  | .error error => ¬ error.IsCycle
  | .ok target => P target

theorem Sound.mono {P Q : ResolvedModuleTarget → Prop}
    {result : Except ResolutionError ResolvedModuleTarget} (h : Sound P result)
    (hPQ : ∀ target, P target → Q target) : Sound Q result := by
  cases result with
  | error error => exact h
  | ok target => exact hPQ target h

theorem bindingGraphModule_sound {error : ResolutionError}
    (h : bindingGraphModule graph identity = .error error) : ¬ error.IsCycle := by
  unfold bindingGraphModule at h
  split at h
  · cases h
    exact id
  · cases h
  · cases h
    exact id

theorem bindingGraphTarget_sound {error : ResolutionError}
    (h : bindingGraphTarget graph identity index = .error error) : ¬ error.IsCycle := by
  unfold bindingGraphTarget at h
  split at h
  · cases h
    exact id
  · cases h
  · cases h
    exact id

theorem resolveEnumMember_sound (enum : ModuleDeclarationBinding) (member : String) :
    Sound (fun target => ∃ variant, target = .declarationTarget variant ∧
      VariantOf graph enum variant) (resolveEnumMember graph enum member) := by
  unfold resolveEnumMember
  split
  · next hkind =>
    rcases hmod : bindingGraphModule graph enum.identity.module with msg | module
    · exact bindingGraphModule_sound hmod
    simp only
    cases hlast : (module.declarations.filter fun candidate =>
        candidate.kind = .variant enum.identity.name ∧
          candidate.identity.name = member).getLast? with
    | none => exact id
    | some variant =>
      have hmem := mem_of_getLast? hlast
      rw [mem_filter, decide_eq_true_eq] at hmem
      exact ⟨variant, rfl, hkind, ⟨module, hmod, hmem.1⟩, hmem.2.1⟩
  · exact id

section Inner

variable {resolve : ModuleIdentity → String → Except ResolutionError ResolvedModuleTarget}
  {P : ResolvedModuleTarget → Prop}

theorem resolveTargetMember_sound {target : ResolvedModuleTarget} (tail : String) (htgt : P target)
    (hns : ∀ identity, target = .namespaceTarget identity → Sound P (resolve identity tail))
    (hvar : ∀ enum variant, target = .declarationTarget enum → VariantOf graph enum variant →
      P (.declarationTarget variant)) :
    Sound P (resolveTargetMember graph resolve target tail) := by
  unfold resolveTargetMember
  split_ifs with htail
  · exact htgt
  cases target with
  | namespaceTarget identity => exact hns identity rfl
  | declarationTarget enum =>
    refine (resolveEnumMember_sound enum tail).mono ?_
    rintro _ ⟨variant, rfl, h⟩
    exact hvar enum variant rfl h

/-- What a resolution in a module may reach: its declarations and its imports, the public ones if
the name comes from another module. -/
structure LookupScope (graph : ModuleBindingGraph) (module : ModuleBindings) (exported : Bool)
    (P : ResolvedModuleTarget → Prop) : Prop where
  declaration : ∀ declaration ∈ module.declarations,
    (exported = true → declaration.isPublic = true) →
    P (.declarationTarget declaration)
  variant : ∀ enum ∈ module.declarations, (exported = true → enum.isPublic = true) →
    ∀ variant, VariantOf graph enum variant → P (.declarationTarget variant)
  opened : ∀ imported index target, (imported, index) ∈ module.imports.zipIdx →
    (exported = true → imported.isPublic = true) →
    graph.ImportTarget module.identity index target → P (.namespaceTarget target)
  through : ∀ imported index target, (imported, index) ∈ module.imports.zipIdx →
    (exported = true → imported.isPublic = true) →
    graph.ImportTarget module.identity index target →
    ∀ reached, Exports graph target reached → P reached

theorem scope_exports {module : ModuleBindings} (hmod : module ∈ graph.modules) :
    LookupScope graph module true (Exports graph module.identity) where
  declaration := fun _ hmem hpub => .declaration hmod hmem (hpub rfl)
  variant := fun _ hmem hpub _ hvar =>
    .variant hmod hmem (hpub rfl) hvar.kind (hvar.mem hmod hmem) hvar.parent
  opened := fun _ _ _ himp hpub htgt => .module hmod himp (hpub rfl) htgt
  through := fun _ _ _ himp hpub htgt _ hrch =>
    .through hmod himp (hpub rfl) htgt hrch

theorem scope_reached {module : ModuleBindings} (hmod : module ∈ graph.modules) :
    LookupScope graph module false (Reached graph module) where
  declaration := fun _ hmem _ => .own hmem
  variant := fun _ hmem _ _ hvar => .own (hvar.mem hmod hmem)
  opened := fun _ _ _ himp _ htgt => .module himp htgt
  through := fun _ _ _ himp _ htgt _ hrch => .imported himp htgt hrch

variable {module : ModuleBindings} {exported : Bool} {head tail : String}

theorem lookupDeclaration_sound (hscope : LookupScope graph module exported P) {state : Lookup}
    {decl : ModuleDeclarationBinding} (hmem : decl ∈ module.declarations)
    (h : Sound P state.result) :
    Sound P (lookupDeclaration graph module.identity exported head tail resolve state
      decl).result := by
  unfold lookupDeclaration
  split
  · cases hprv : exported && !decl.isPublic with
    | true => exact id
    | false =>
      have hpub : exported = true → decl.isPublic = true := by
        rintro rfl
        simpa using hprv
      show Sound P (resolveTargetMember graph resolve (.declarationTarget decl) tail)
      refine resolveTargetMember_sound tail (hscope.declaration decl hmem hpub) ?_ ?_
      · intro identity heq
        cases heq
      · intro enum variant heq hvar
        cases heq
        exact hscope.variant decl hmem hpub variant hvar
  · exact h

theorem resolveSelector_sound
    (hrslv : ∀ inner name, Relation.TransGen graph.Imports module.identity inner →
      Sound (Exports graph inner) (resolve inner name))
    {target : ModuleIdentity} (himps : graph.Imports module.identity target)
    (hns : P (.namespaceTarget target))
    (hthru : ∀ reached, Exports graph target reached → P reached) (selector : ImportSelector) :
    Sound P (resolveSelector graph tail resolve selector target) := by
  unfold resolveSelector
  split_ifs with hname
  · refine resolveTargetMember_sound tail hns ?_ ?_
    · intro identity heq
      cases heq
      exact (hrslv target tail (.single himps)).mono hthru
    · intro enum variant heq
      cases heq
  · have hsel := hrslv target selector.name (.single himps)
    rcases hbinding : resolve target selector.name with msg | binding
    · rw [hbinding] at hsel
      exact hsel
    rw [hbinding] at hsel
    have hexp : Exports graph target binding := hsel
    refine resolveTargetMember_sound tail (hthru _ hexp) ?_ ?_
    · rintro identity rfl
      refine (hrslv identity tail (.head himps hexp.imports)).mono fun reached hrch => ?_
      exact hthru reached (hexp.trans hrch)
    · rintro enum variant rfl hvar
      exact hthru _ (hexp.member hvar)

theorem lookupSelector_sound (hmod : module ∈ graph.modules)
    (hscope : LookupScope graph module exported P)
    (hrslv : ∀ inner name, Relation.TransGen graph.Imports module.identity inner →
      Sound (Exports graph inner) (resolve inner name)) {imported : ModuleImportBinding} {index : ℕ}
    (himp : (imported, index) ∈ module.imports.zipIdx) {state : Lookup}
    (selector : ImportSelector) (h : Sound P state.result) :
    Sound P (lookupSelector graph module.identity exported head tail resolve imported index state
      selector).result := by
  unfold lookupSelector
  split
  · cases hprv : exported && !imported.isPublic with
    | true => exact id
    | false =>
      have hpub : exported = true → imported.isPublic = true := by
        rintro rfl
        simpa using hprv
      cases htgt : bindingGraphTarget graph module.identity index with
      | error msg => exact bindingGraphTarget_sound htgt
      | ok target =>
        have himport := bindingGraphTarget_eq_ok.mp htgt
        exact resolveSelector_sound hrslv (imports_of_zipIdx hmod himp himport)
          (hscope.opened imported index target himp hpub himport)
          (hscope.through imported index target himp hpub himport) selector
  · exact h

end Inner

theorem foldl_sound {α : Type} {P : ResolvedModuleTarget → Prop} {step : Lookup → α → Lookup}
    (items : List α)
    (hstep : ∀ item ∈ items, ∀ state, Sound P state.result → Sound P (step state item).result) :
    ∀ {state : Lookup}, Sound P state.result → Sound P (items.foldl step state).result := by
  induction items with
  | nil => exact fun h => h
  | cons item items ih =>
    intro state h
    exact ih (fun other hoth => hstep other (mem_cons_of_mem _ hoth))
      (hstep item mem_cons_self state h)

/-- The resolution of one name, from the resolutions of the modules that the module imports. -/
theorem resolveInner_step {module : ModuleBindings} (hmod : module ∈ graph.modules)
    (hfound : bindingGraphModule graph module.identity = .ok module) {exported : Bool}
    {P : ResolvedModuleTarget → Prop} (hscope : LookupScope graph module exported P)
    {stack : List ModuleIdentity} (hstk : module.identity ∉ stack)
    (hrslv : ∀ inner name, Relation.TransGen graph.Imports module.identity inner →
      Sound (Exports graph inner)
        (resolveModulePathInner graph inner name true (stack ++ [module.identity])))
    (spelling : String) :
    Sound P (resolveModulePathInner graph module.identity spelling exported stack) := by
  rw [resolveModulePathInner, dif_neg hstk]
  split
  · next message herr =>
    cases hfound.symm.trans herr
  next found heq =>
  cases hfound.symm.trans heq
  split
  · exact id
  refine foldl_sound _ (fun imported himp state hstate => ?_) ?_
  · exact foldl_sound _ (fun selector _ state hstate =>
      lookupSelector_sound hmod hscope hrslv himp selector hstate) hstate
  · exact foldl_sound _ (fun decl hmem state hstate =>
      lookupDeclaration_sound hscope hmem hstate) id

/-- Where the imports have targets and there is no cycle, the resolution of an exported name reaches
what the module exports. -/
theorem resolveInner_exports (hdist : graph.Distinct) (hexist : graph.TargetsExist)
    (hacyc : graph.Acyclic) (size : ℕ) : ∀ {identity : ModuleIdentity} {spelling : String}
    {stack : List ModuleIdentity}, pending graph.identities stack = size →
    identity ∈ graph.identities → Leads graph.Imports stack identity →
    Sound (Exports graph identity) (resolveModulePathInner graph identity spelling true stack) := by
  induction size using Nat.strongRecOn with
  | ind size ih =>
    intro identity spelling stack hsize hmem hleads
    obtain ⟨module, hin, rfl, hfound⟩ := exists_module hdist hmem
    have hstk := hleads.notMem (hacyc module.identity)
    refine resolveInner_step hin hfound (scope_exports hin) hstk
      (fun inner name hinner => ?_) spelling
    exact ih _ (hsize ▸ pending_snoc_lt hmem hstk) rfl (mem_of_transGen hexist hinner)
      (hleads.snoc hinner)

end Resolution

/-! ## The contract -/

/-- The walk reports no error exactly where every import has a target and the imports have no cycle.
It has then completed every module once, after the modules that it imports; and the resolution of a
name from a module reports no cycle and reaches the module's own declarations, the modules that it
imports and what these export. -/
theorem moduleGraph_contract (graph : ModuleBindingGraph) (hdistinct : graph.Distinct) :
    ((walkModuleGraph graph).error = none ↔ graph.TargetsExist ∧ graph.Acyclic) ∧
    ((walkModuleGraph graph).error = none →
      (walkModuleGraph graph).completed.Perm graph.identities ∧
      (∀ owner target, graph.Imports owner target → (walkModuleGraph graph).completed.idxOf target <
          (walkModuleGraph graph).completed.idxOf owner) ∧
      ∀ module ∈ graph.modules, ∀ spelling,
        Sound (Reached graph module) (resolveModulePath graph module.identity spelling)) := by
  refine ⟨walkModuleGraph_none_iff hdistinct, fun h => ?_⟩
  obtain ⟨hexist, hacyc⟩ := (walkModuleGraph_none_iff hdistinct).mp h
  obtain ⟨hwalk, hall⟩ := walkModuleGraph_walked h
  refine ⟨(perm_ext_iff_of_nodup hwalk.ordered.nodup hdistinct).mpr hall, ?_, ?_⟩
  · rintro owner target himps
    have hmem : owner ∈ (walkModuleGraph graph).completed := by
      obtain ⟨module, hin, rfl, _⟩ := himps
      exact (hall module.identity).mpr (mem_map.mpr ⟨module, hin, rfl⟩)
    exact hwalk.ordered.idxOf_lt hmem himps
  · intro module hin spelling
    have hfound := bindingGraphModule_eq_ok hdistinct hin
    refine resolveInner_step hin hfound (scope_reached hin) (fun hmem => by cases hmem)
      (fun inner name hinner => ?_) spelling
    exact resolveInner_exports hdistinct hexist hacyc _ rfl
      (mem_of_transGen hexist hinner) (Leads.snoc (.nil _) hinner)

/-- A module with a public enum of one variant. -/
def colourModule : ModuleBindings :=
  collectModuleBindings [] ⟨.standalone, "colour.panack"⟩
    [(.enumDeclaration "Colour" ["Red"], ⟨⟨⟨"", 0, 1, 1⟩, ⟨"", 0, 1, 1⟩⟩, true, .noImport, none⟩)]

/-- A module that imports it under another name. -/
def paintModule : ModuleBindings :=
  collectModuleBindings [] ⟨.standalone, "paint.panack"⟩
    [(.importDeclaration "colour", ⟨⟨⟨"", 0, 1, 1⟩, ⟨"", 0, 1, 1⟩⟩, false,
      .namespaceImport "palette" true, none⟩)]

/-- A module that imports another. -/
def paintGraph : ModuleBindingGraph :=
  ⟨[paintModule, colourModule], [⟨paintModule.identity, 0, colourModule.identity⟩]⟩

theorem moduleGraph_contract_paint :
    (walkModuleGraph paintGraph).completed.Perm paintGraph.identities ∧
    (∃ variant, resolveModulePath paintGraph paintModule.identity "palette.Colour.Red" =
      .ok (.declarationTarget variant)) ∧
    Sound (Reached paintGraph paintModule)
      (resolveModulePath paintGraph paintModule.identity "palette.Colour.Red") := by
  have hdist : paintGraph.identities.Nodup := by decide +kernel
  have h := (moduleGraph_contract paintGraph hdist).2 (by decide +kernel)
  refine ⟨h.1, ⟨⟨⟨colourModule.identity, "Red"⟩, .variant "Colour", true,
    ⟨⟨"", 0, 1, 1⟩, ⟨"", 0, 1, 1⟩⟩, none⟩, by decide +kernel⟩, ?_⟩
  exact h.2.2 paintModule mem_cons_self "palette.Colour.Red"

end Panackelty.Compiler
