import Mathlib.Data.List.Basic

/-!
# Bindings of a module

`compiler/module_bindings.panack`: the declarations and the imports of a module, with the identity
of the module kept apart from the spelling of a name.

* `ModuleBindings`: every declaration has the identity of its module, which the loop of
  `collectModuleBindings` keeps.
* `moduleImportNames`: the names that an import binds.
* `moduleBindingDiagnostics`: the names that are bound twice or are reserved.
-/

namespace Panackelty.Compiler

/-! ## Positions -/

/-- `SourcePos`. -/
structure SourcePos where
  file : String
  offset : ℕ
  line : ℕ
  column : ℕ
  deriving DecidableEq, Repr

/-- `SourceSpan`. -/
structure SourceSpan where
  start : SourcePos
  stop : SourcePos
  deriving DecidableEq, Repr

/-- `Diagnostic`. -/
structure Diagnostic where
  message : String
  position : SourcePos
  deriving DecidableEq, Repr

/-! ## Identities -/

/-- `ModulePackageIdentity`. -/
inductive ModulePackageIdentity where
  | standalone
  | manifest (name version : String)
  | toolchain
  deriving DecidableEq, Repr

/-- `ModuleIdentity`. -/
structure ModuleIdentity where
  package : ModulePackageIdentity
  path : String
  deriving DecidableEq, Repr

/-- `DeclarationIdentity`. -/
structure DeclarationIdentity where
  module : ModuleIdentity
  name : String
  deriving DecidableEq, Repr

/-- `ModuleDeclarationKind`. -/
inductive ModuleDeclarationKind where
  | function
  | guardedType
  | record
  | enum
  | variant (parent : String)
  deriving DecidableEq, Repr

/-- `MethodOwnerIdentity`. -/
inductive MethodOwnerIdentity where
  | nominal (identity : DeclarationIdentity)
  | builtin (family : String)
  deriving DecidableEq, Repr

/-- `method_owner_name`. -/
def methodOwnerName : MethodOwnerIdentity → String
  | .nominal identity => identity.name
  | .builtin family => family

/-- The families of `builtin_owner_arity`. -/
def builtinOwners : List String :=
  ["Array", "Set", "Map", "HttpServerState", "HttpConnectionState", "Nat", "Int", "Dec", "Rat",
    "Bool", "Unit", "Str", "Bytes", "Path", "Duration", "Instant", "HttpResponseState"]

/-- `method_owner_identity`. -/
def methodOwnerIdentity (module : ModuleIdentity) (name : String) : MethodOwnerIdentity :=
  if builtinOwners.contains name then .builtin name else .nominal ⟨module, name⟩

/-- `OwnedMethodIdentity`. -/
structure OwnedMethodIdentity where
  owner : MethodOwnerIdentity
  name : String
  deriving DecidableEq, Repr

/-- `ModuleDeclarationBinding`. -/
structure ModuleDeclarationBinding where
  identity : DeclarationIdentity
  kind : ModuleDeclarationKind
  isPublic : Bool
  span : SourceSpan
  method : Option OwnedMethodIdentity
  deriving DecidableEq, Repr

/-! ## Imports -/

/-- `ImportSelector`. -/
structure ImportSelector where
  name : String
  aliasName : String
  span : SourceSpan
  deriving DecidableEq, Repr

/-- `ImportBindingSyntax`. -/
inductive ImportBindingSyntax where
  | noImport
  | namespaceImport (aliasName : String) (explicit : Bool)
  | selectiveImport (selectors : List ImportSelector)
  deriving DecidableEq, Repr

/-- `ModuleImportBinding`. -/
structure ModuleImportBinding where
  path : String
  binding : ImportBindingSyntax
  isPublic : Bool
  span : SourceSpan
  deriving DecidableEq, Repr

/-- `module_import_names`: a namespace has the empty name. -/
def moduleImportNames (imported : ModuleImportBinding) : List ImportSelector :=
  match imported.binding with
  | .noImport => []
  | .namespaceImport aliasName _ => [⟨"", aliasName, imported.span⟩]
  | .selectiveImport selectors => selectors

/-! ## Modules -/

/-- The bindings of a module, whose declarations are its own. -/
structure ModuleBindings where
  identity : ModuleIdentity
  declarations : List ModuleDeclarationBinding
  imports : List ModuleImportBinding
  owned : ∀ declaration ∈ declarations, declaration.identity.module = identity

/-- What a top-level declaration says of its names. -/
inductive TopLevel where
  | importDeclaration (path : String)
  | typeDeclaration (name : String)
  | recordDeclaration (name : String)
  | enumDeclaration (name : String) (variants : List String)
  | functionDeclaration (name : String)
  deriving DecidableEq, Repr

/-- The owner and the name of a method. -/
structure OwnedMethodSyntax where
  owner : String
  name : String
  deriving DecidableEq, Repr

/-- What a declaration says about its binding. -/
structure DeclarationSyntax where
  span : SourceSpan
  isPublic : Bool
  binding : ImportBindingSyntax
  method : Option OwnedMethodSyntax
  deriving DecidableEq, Repr

/-- `module_declaration_binding`. -/
def moduleDeclarationBinding (identity : ModuleIdentity) (name : String)
    (kind : ModuleDeclarationKind) (declared : DeclarationSyntax) : ModuleDeclarationBinding :=
  ⟨⟨identity, name⟩, kind, declared.isPublic, declared.span,
    declared.method.map fun value => ⟨methodOwnerIdentity identity value.owner, value.name⟩⟩

/-- The declarations that one round of the loop of `collect_module_bindings` appends. -/
def declarationsOf (identity : ModuleIdentity) :
    TopLevel × DeclarationSyntax → List ModuleDeclarationBinding
  | (.importDeclaration _, _) => []
  | (.typeDeclaration name, declared) =>
    [moduleDeclarationBinding identity name .guardedType declared]
  | (.recordDeclaration name, declared) =>
    [moduleDeclarationBinding identity name .record declared]
  | (.enumDeclaration name variants, declared) =>
    moduleDeclarationBinding identity name .enum declared :: variants.map fun variant =>
        moduleDeclarationBinding identity variant (.variant name) declared
  | (.functionDeclaration name, declared) =>
    [moduleDeclarationBinding identity name .function declared]

/-- The imports that one round appends. -/
def importsOf : TopLevel × DeclarationSyntax → List ModuleImportBinding
  | (.importDeclaration path, declared) =>
      [⟨path, declared.binding, declared.isPublic, declared.span⟩]
  | _ => []

/-- `builtin_owner_module`. -/
def builtinOwnerModule : ModuleIdentity := ⟨.toolchain, "core.panack"⟩

/-- The declarations of intrinsics, a method name for each owner. -/
def intrinsicBinding (identity : ModuleIdentity) (intrinsic : OwnedMethodSyntax) :
    ModuleDeclarationBinding :=
  let position : SourcePos := ⟨"<toolchain intrinsic>", 0, 1, 1⟩
  ⟨⟨identity, "$intrinsic$" ++ intrinsic.owner ++ "$" ++ intrinsic.name⟩, .function, true,
    ⟨position, position⟩, some ⟨.builtin intrinsic.owner, intrinsic.name⟩⟩

/-- `collect_module_bindings`, with the table of intrinsics of the toolchain as an argument. -/
def collectModuleBindings (intrinsics : List OwnedMethodSyntax) (identity : ModuleIdentity)
    (parsed : List (TopLevel × DeclarationSyntax)) : ModuleBindings where
  identity := identity
  declarations := parsed.flatMap (declarationsOf identity) ++
    (if identity = builtinOwnerModule then intrinsics.map (intrinsicBinding identity) else [])
  imports := parsed.flatMap importsOf
  owned := by
    intro declaration hmem
    rcases List.mem_append.mp hmem with hmem | hmem
    · obtain ⟨⟨top, declared⟩, _, hdeclared⟩ := List.mem_flatMap.mp hmem
      cases top with
      | importDeclaration path => cases hdeclared
      | typeDeclaration name | recordDeclaration name | functionDeclaration name =>
        rw [List.mem_singleton.mp hdeclared]; rfl
      | enumDeclaration name variants =>
        rcases List.mem_cons.mp hdeclared with rfl | hvariant
        · rfl
        · obtain ⟨variant, _, rfl⟩ := List.mem_map.mp hvariant
          rfl
    · split_ifs at hmem
      · obtain ⟨intrinsic, _, rfl⟩ := List.mem_map.mp hmem
        rfl
      · cases hmem

/-! ## Conflicts -/

/-- `source_builtin`. -/
def sourceBuiltin (name : String) : Bool :=
  ["$unit", "bytes", "map", "print", "read_line", "set", "write_file"].contains name

/-- `module_reserved_binding`. -/
def moduleReservedBinding (name : String) : Bool :=
  sourceBuiltin name ||
    ["validate", "Nat", "Int", "Dec", "Rat", "Array", "Bool", "Str", "Bytes", "Unit",
      "HttpServerState", "HttpConnectionState", "HttpResponseState", "Void", "Path", "Duration",
      "Instant", "Option", "Result", "Map", "Set", "PureFn", "Fn", "AsyncFn", "None", "Some", "Ok",
      "Error"].contains name

/-- The name that a declaration binds. -/
def declarationName (declaration : ModuleDeclarationBinding) : String :=
  match declaration.method with
  | none => declaration.identity.name
  | some method => methodOwnerName method.owner ++ "." ++ method.name

/-- The state of the loops of `module_binding_diagnostics`. -/
structure BindingCheck where
  names : List String
  diagnostics : List Diagnostic

/-- A round of the loop over the declarations. -/
def checkDeclaration (state : BindingCheck) (declaration : ModuleDeclarationBinding) :
    BindingCheck :=
  let name := declarationName declaration
  ⟨state.names ++ [name], if state.names.contains name then
      state.diagnostics ++
        [⟨"module declaration " ++ name ++ " is already bound", declaration.span.start⟩]
    else state.diagnostics⟩

/-- A round of the loop over the names of the imports. -/
def checkSelector (state : BindingCheck) (selector : ImportSelector) : BindingCheck :=
  let name := selector.aliasName
  ⟨state.names ++ [name], if state.names.contains name then
      state.diagnostics ++
        [⟨"import binding " ++ name ++ " conflicts with an existing module binding",
          selector.span.start⟩]
    else if moduleReservedBinding name then
      state.diagnostics ++
        [⟨"import binding " ++ name ++ " conflicts with a built-in", selector.span.start⟩]
    else state.diagnostics⟩

/-- `module_binding_diagnostics`. -/
def moduleBindingDiagnostics (bindings : ModuleBindings) : List Diagnostic :=
  let declared := bindings.declarations.foldl checkDeclaration ⟨[], []⟩
  ((bindings.imports.flatMap moduleImportNames).foldl checkSelector declared).diagnostics

end Panackelty.Compiler
