import MgLang.Module.Registry
import MgLang.Scope.Binding
import MgLang.Scope.Stack
/-!
# The scope of a module

The names that can be used at the top of a module. Later groups hide earlier ones: what each import
brings and the short name of the import itself, then the intrinsics and the built-in library, then
the functions and at last the classes of the module. `rootNames` lists what `root_scope` declares.
-/

namespace MgLang

/-- What the name of a symbol refers to. -/
def Symbol.binding (s : Symbol) : Binding :=
  match s.decl with
  | .function idx => .function s.module idx
  | .classAt idx => .classAt s.module idx
  | .builtin => .builtin s.module s.name

namespace Module

/-- The names that importing the module brings: its public symbols, and its short name. -/
def exports (m : Module) : List (String × Binding) :=
  m.publicSymbols.map (fun s => (s.name, s.binding)) ++ [(m.shortName, .namespaceOf m.path)]

/-- The names that the module declares itself: its functions, then its classes. -/
def ownNames (m : Module) : List (String × Binding) :=
  (m.decls.functionSymbols m.path ++ m.decls.classSymbols m.path).map fun s => (s.name, s.binding)

end Module

/-- The names that every module knows. -/
def Builtin.names : List (String × Binding) :=
  intrinsics.map (fun name => (name, .intrinsic name)) ++ [(root, .namespaceOf root)]

namespace Registry

/-- The modules that the imports of a module turned out to name. -/
def importedModules (r : Registry) (m : Module) : List Module :=
  m.resolvedImports.filterMap r.find?

/-- The names that can be used at the top of a module. Of equal names the last counts. -/
def rootNames (r : Registry) (m : Module) : List (String × Binding) :=
  (r.importedModules m).flatMap Module.exports ++ Builtin.names ++ m.ownNames

/-- The scope of a module (`root_scope`). -/
def rootScope (r : Registry) (m : Module) : ScopeStack Binding :=
  (r.rootNames m).foldl (fun s e => s.declare e.1 e.2)
    (ScopeStack.withImports m.resolvedImports).push

/-- The last imported module in which that name is private (`private_imports`). -/
def privateOwner? (r : Registry) (m : Module) (name : String) : Option String :=
  ((r.importedModules m).reverse.find? fun i =>
    i.symbols.any fun s => s.name == name && !s.isPublic).map (·.path)

end Registry

end MgLang
