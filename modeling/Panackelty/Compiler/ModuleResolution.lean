import Panackelty.Library.Topological
import Panackelty.Compiler.ModuleBindings

/-!
# Resolution of modules

`compiler/module_resolution.panack`: the walk over the import graph and the resolution of dotted
names.  Both carry the path of modules that they are in; a module is on the path at most once, so
the number of modules that are not on it goes down with every call.

* `bindingGraphVisit`, `walkModuleGraph`: the walk.
* `resolveModulePathInner`, `resolveModulePath`: the resolution of a name.
-/

namespace Panackelty.Compiler

open Library List

/-- The errors of the walk and of the resolution. -/
inductive ResolutionError where
  | duplicateModule (path : String)
  | missingModule (path : String)
  | ambiguousTarget (path : String)
  | missingTarget (path : String)
  | cycle (stack : List ModuleIdentity) (identity : ModuleIdentity)
  | noVariant (enum member : String)
  | notNamespace (kind : ModuleDeclarationKind) (name : String)
  | conflict (message : String)
  | noBinding (path spelling : String)
  | privateDeclaration (head path : String)
  | privateImport (head path : String)
  deriving DecidableEq, Repr

namespace ResolutionError

/-- `module_cycle_text`. -/
def moduleCycleText (stack : List ModuleIdentity) (identity : ModuleIdentity) : String :=
  "module import cycle: " ++ stack.foldl (fun text item => text ++ item.path ++ " -> ") "" ++
    identity.path

/-- The text of an error. -/
def text : ResolutionError → String
  | duplicateModule path => "duplicate module identity " ++ path
  | missingModule path => "missing module " ++ path
  | ambiguousTarget path => "ambiguous import target in " ++ path
  | missingTarget path => "missing import target in " ++ path
  | cycle stack identity => moduleCycleText stack identity
  | noVariant enum member => "enum " ++ enum ++ " has no variant " ++ member
  | notNamespace .function name => "function is not a namespace: " ++ name
  | notNamespace .guardedType name => "guarded type is not a namespace: " ++ name
  | notNamespace .record name => "record is not a namespace: " ++ name
  | notNamespace .enum name => "enum is not a namespace: " ++ name
  | notNamespace (.variant _) name => "variant is not a namespace: " ++ name
  | conflict message => message
  | noBinding path spelling => "module " ++ path ++ " has no binding " ++ spelling
  | privateDeclaration head path => "module declaration " ++ head ++ " is private in " ++ path
  | privateImport head path => "import binding " ++ head ++ " is private in " ++ path

/-- The error reports a cycle. -/
def IsCycle : ResolutionError → Prop
  | cycle _ _ => True
  | _ => False

end ResolutionError

/-! ## The graph -/

/-- `ModuleImportEdge`. -/
structure ModuleImportEdge where
  owner : ModuleIdentity
  index : ℕ
  target : ModuleIdentity
  deriving DecidableEq, Repr

/-- `ModuleBindingGraph`. -/
structure ModuleBindingGraph where
  modules : List ModuleBindings
  edges : List ModuleImportEdge

/-- `ResolvedModuleTarget`. -/
inductive ResolvedModuleTarget where
  | declarationTarget (declaration : ModuleDeclarationBinding)
  | namespaceTarget (identity : ModuleIdentity)
  deriving DecidableEq, Repr

/-- The identities of the modules of a graph. -/
def ModuleBindingGraph.identities (graph : ModuleBindingGraph) : List ModuleIdentity :=
  graph.modules.map ModuleBindings.identity

/-- `binding_graph_module`. -/
def bindingGraphModule (graph : ModuleBindingGraph) (identity : ModuleIdentity) :
    Except ResolutionError ModuleBindings :=
  match graph.modules.filter fun module => module.identity = identity with
  | [] => .error (.missingModule identity.path)
  | [module] => .ok module
  | _ :: _ :: _ => .error (.duplicateModule identity.path)

/-- `binding_graph_target`. -/
def bindingGraphTarget (graph : ModuleBindingGraph) (identity : ModuleIdentity) (index : ℕ) :
    Except ResolutionError ModuleIdentity :=
  match graph.edges.filter fun edge => edge.owner = identity ∧ edge.index = index with
  | [] => .error (.missingTarget identity.path)
  | [edge] => .ok edge.target
  | _ :: _ :: _ => .error (.ambiguousTarget identity.path)

variable {module : ModuleBindings}

theorem mem_of_bindingGraphModule {graph : ModuleBindingGraph} {identity : ModuleIdentity}
    (h : bindingGraphModule graph identity = .ok module) :
    module ∈ graph.modules ∧ module.identity = identity := by
  unfold bindingGraphModule at h
  split at h
  · cases h
  · next found hfilt =>
    cases h
    have hmem : module ∈ graph.modules.filter fun module => module.identity = identity := by
      rw [hfilt]
      exact mem_singleton_self module
    rw [List.mem_filter, decide_eq_true_eq] at hmem
    exact hmem
  · cases h

theorem eq_of_bindingGraphModule {graph : ModuleBindingGraph} {identity : ModuleIdentity}
    {other : ModuleBindings} (h : bindingGraphModule graph identity = .ok module)
    (hoth : other ∈ graph.modules) (hid : other.identity = identity) : other = module := by
  have hmem : other ∈ graph.modules.filter fun module => module.identity = identity :=
    mem_filter.mpr ⟨hoth, decide_eq_true hid⟩
  unfold bindingGraphModule at h
  split at h
  · cases h
  · next found hfilt =>
    cases h
    rw [hfilt] at hmem
    exact mem_singleton.mp hmem
  · cases h

theorem identity_mem {graph : ModuleBindingGraph} {identity : ModuleIdentity}
    (h : bindingGraphModule graph identity = .ok module) :
    identity ∈ graph.identities :=
  mem_map.mpr ⟨module, mem_of_bindingGraphModule h⟩

/-! ## The walk -/

/-- `ModuleGraphWalk`. -/
structure ModuleGraphWalk where
  completed : List ModuleIdentity
  error : Option ResolutionError
  deriving DecidableEq, Repr

/-- A round of the loop of `binding_graph_visit` over the imports of a module. -/
def visitImport (graph : ModuleBindingGraph) (identity : ModuleIdentity)
    (visit : ModuleIdentity → ModuleGraphWalk → ModuleGraphWalk) (current : ModuleGraphWalk)
    (index : ℕ) : ModuleGraphWalk :=
  match current.error with
  | some _ => current
  | none =>
    match bindingGraphTarget graph identity index with
    | .error message => ⟨current.completed, some message⟩
    | .ok target => visit target current

/-- The end of `binding_graph_visit`: the module is complete if its imports are. -/
def completeModule (identity : ModuleIdentity) (current : ModuleGraphWalk) : ModuleGraphWalk :=
  match current.error with
  | some _ => current
  | none => ⟨current.completed ++ [identity], none⟩

/-- `binding_graph_visit`. -/
def bindingGraphVisit (graph : ModuleBindingGraph) (identity : ModuleIdentity)
    (stack : List ModuleIdentity) (state : ModuleGraphWalk) : ModuleGraphWalk :=
  if identity ∈ state.completed then state
  else if hstack : identity ∈ stack then ⟨state.completed, some (.cycle stack identity)⟩
  else
    match hmodule : bindingGraphModule graph identity with
    | .error message => ⟨state.completed, some message⟩
    | .ok module =>
      completeModule identity ((List.range module.imports.length).foldl
        (visitImport graph identity fun target current =>
          bindingGraphVisit graph target (stack ++ [identity]) current) state)
termination_by pending graph.identities stack
decreasing_by exact pending_snoc_lt (identity_mem hmodule) hstack

theorem bindingGraphVisit_of_module {graph : ModuleBindingGraph} {identity : ModuleIdentity}
    {stack : List ModuleIdentity} {state : ModuleGraphWalk}
    (hcompl : identity ∉ state.completed) (hstk : identity ∉ stack)
    (hmod : bindingGraphModule graph identity = .ok module) :
    bindingGraphVisit graph identity stack state =
      completeModule identity ((range module.imports.length).foldl
        (visitImport graph identity fun tgt cur =>
          bindingGraphVisit graph tgt (stack ++ [identity]) cur) state) := by
  rw [bindingGraphVisit, if_neg hcompl, dif_neg hstk]
  split
  · next message herr =>
    cases hmod.symm.trans herr
  · next found hfound =>
    cases hmod.symm.trans hfound
    rfl

/-- A visit that reports no error has found the module, or had completed it before. -/
theorem exists_module_of_visit {graph : ModuleBindingGraph} {identity : ModuleIdentity}
    {stack : List ModuleIdentity} {state : ModuleGraphWalk}
    (h : (bindingGraphVisit graph identity stack state).error = none)
    (hcompl : identity ∉ state.completed) :
    identity ∉ stack ∧ ∃ module, bindingGraphModule graph identity = .ok module := by
  rw [bindingGraphVisit, if_neg hcompl] at h
  by_cases hstk : identity ∈ stack
  · rw [dif_pos hstk] at h
    cases h
  rw [dif_neg hstk] at h
  split at h
  · cases h
  · next module hmod => exact ⟨hstk, module, hmod⟩

/-- A round of the loop of `walk_module_graph`. -/
def walkModule (graph : ModuleBindingGraph) (state : ModuleGraphWalk) (module : ModuleBindings) :
    ModuleGraphWalk :=
  match state.error with
  | some _ => state
  | none => bindingGraphVisit graph module.identity [] state

/-- `walk_module_graph`. -/
def walkModuleGraph (graph : ModuleBindingGraph) : ModuleGraphWalk :=
  graph.modules.foldl (walkModule graph) ⟨[], none⟩

/-! ## Dotted names -/

/-- The name before the first dot. -/
def referenceHead (name : String) : String := String.ofList (name.toList.takeWhile (· != '.'))

/-- What follows the first dot. -/
def referenceTail (name : String) : String :=
  String.ofList ((name.toList.dropWhile (· != '.')).drop 1)

/-- `resolve_enum_member`: the last variant of that name. -/
def resolveEnumMember (graph : ModuleBindingGraph) (declaration : ModuleDeclarationBinding)
    (member : String) : Except ResolutionError ResolvedModuleTarget :=
  match declaration.kind with
  | .enum =>
    match bindingGraphModule graph declaration.identity.module with
    | .error message => .error message
    | .ok module =>
      match (module.declarations.filter fun candidate =>
          candidate.kind = .variant declaration.identity.name ∧
            candidate.identity.name = member).getLast? with
      | none => .error (.noVariant declaration.identity.name member)
      | some variant => .ok (.declarationTarget variant)
  | kind => .error (.notNamespace kind declaration.identity.name)

/-- `resolve_target_member`, with the resolution of exported names of a module as an argument. -/
def resolveTargetMember (graph : ModuleBindingGraph)
    (resolve : ModuleIdentity → String → Except ResolutionError ResolvedModuleTarget)
    (target : ResolvedModuleTarget) (tail : String) : Except ResolutionError ResolvedModuleTarget :=
  if tail = "" then .ok target
  else
    match target with
    | .namespaceTarget identity => resolve identity tail
    | .declarationTarget declaration => resolveEnumMember graph declaration tail

/-- A variant has a bare name only inside its module. -/
def selectable (exported : Bool) (declaration : ModuleDeclarationBinding) : Bool :=
  match declaration.kind with
  | .variant _ => !exported
  | _ => true

/-- The state of the loops of `resolve_module_path_inner`. -/
structure Lookup where
  found : Bool
  result : Except ResolutionError ResolvedModuleTarget

section Lookups

variable (graph : ModuleBindingGraph) (identity : ModuleIdentity) (exported : Bool)
  (head tail : String)
  (resolve : ModuleIdentity → String → Except ResolutionError ResolvedModuleTarget)

/-- A round of the loop over the declarations. -/
def lookupDeclaration (state : Lookup) (declaration : ModuleDeclarationBinding) : Lookup :=
  if declaration.identity.name = head ∧ declaration.method = none ∧
      selectable exported declaration = true then
    ⟨true, if exported && !declaration.isPublic then .error (.privateDeclaration head identity.path)
      else resolveTargetMember graph resolve (.declarationTarget declaration) tail⟩
  else state

/-- What a selector of an import stands for. -/
def resolveSelector (selector : ImportSelector) (target : ModuleIdentity) :
    Except ResolutionError ResolvedModuleTarget :=
  let selected := if selector.name = "" then .ok (.namespaceTarget target)
    else resolve target selector.name
  match selected with
  | .error message => .error message
  | .ok binding => resolveTargetMember graph resolve binding tail

/-- A round of the loops over the names of the imports. -/
def lookupSelector (imported : ModuleImportBinding) (index : ℕ) (state : Lookup)
    (selector : ImportSelector) : Lookup :=
  if state.found = false ∧ selector.aliasName = head then
    ⟨true, if exported && !imported.isPublic then .error (.privateImport head identity.path) else
        match bindingGraphTarget graph identity index with
        | .error message => .error message
        | .ok target => resolveSelector graph tail resolve selector target⟩
  else state

/-- One import of the lookup. -/
def lookupImport (state : Lookup) (imported : ModuleImportBinding × ℕ) : Lookup :=
  (moduleImportNames imported.1).foldl
    (lookupSelector graph identity exported head tail resolve imported.1 imported.2) state

end Lookups

/-- `resolve_module_path_inner`. -/
def resolveModulePathInner (graph : ModuleBindingGraph) (identity : ModuleIdentity)
    (spelling : String) (exported : Bool) (stack : List ModuleIdentity) :
    Except ResolutionError ResolvedModuleTarget :=
  if hstack : identity ∈ stack then .error (.cycle stack identity)
  else
    match hmodule : bindingGraphModule graph identity with
    | .error message => .error message
    | .ok module =>
      match moduleBindingDiagnostics module with
      | conflict :: _ => .error (.conflict conflict.message)
      | [] =>
        let head := referenceHead spelling
        let tail := referenceTail spelling
        let resolve := fun target name =>
          resolveModulePathInner graph target name true (stack ++ [identity])
        let declared := module.declarations.foldl
          (lookupDeclaration graph identity exported head tail resolve)
          ⟨false, .error (.noBinding identity.path spelling)⟩
        (module.imports.zipIdx.foldl
          (lookupImport graph identity exported head tail resolve) declared).result
termination_by pending graph.identities stack
decreasing_by exact pending_snoc_lt (identity_mem hmodule) hstack

/-- `resolve_module_path`. -/
def resolveModulePath (graph : ModuleBindingGraph) (identity : ModuleIdentity) (spelling : String) :
    Except ResolutionError ResolvedModuleTarget :=
  resolveModulePathInner graph identity spelling false []

end Panackelty.Compiler
