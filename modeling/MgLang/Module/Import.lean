import MgLang.Module.Registry
/-!
# Imports

What the imports of a module name. They are resolved in order, and the first that names no module
ends the resolution: those before it count, those after it do not. `resolve_imports` and
`resolve_and_record` share that (`resolve_prefix`).
-/

namespace MgLang.Registry

/-- The module that an import names inside module `importer`: the first of the candidates that is
there, and after them of the paths below the dependencies, in the order of their names
(`resolve_import`). -/
def resolveImport? (r : Registry) (path importer : String) : Option String :=
  if Builtin.isNamespace path then some path
  else
    let below := r.dependencies.map fun name => name ++ "." ++ path
    (importCandidates path importer ++ below).find? r.contains

/-- What the imports of a module turned out to name. -/
structure Imports where
  /-- The modules named by the imports before the first failure. -/
  resolved : List String
  /-- The first import that names no module. -/
  failed : Option Using

/-- The fault that an import names no module. -/
def notFound (u : Using) : Diagnostic :=
  ⟨.moduleNotFound u.path, u.span⟩

/-- Resolves imports in order up to the first that names no module (the loop of
`resolve_prefix`). -/
def resolveUsings (r : Registry) (importer : String) : List Using → Imports
  | [] => ⟨[], none⟩
  | u :: us =>
    match r.resolveImport? u.path importer with
    | none => ⟨[], some u⟩
    | some path =>
      let rest := r.resolveUsings importer us
      ⟨path :: rest.resolved, rest.failed⟩

/-- What the imports of the module at `path` name (`resolve_prefix`). -/
def importsOf (r : Registry) (path : String) : Imports :=
  match r.find? path with
  | none => ⟨[], none⟩
  | some m => r.resolveUsings path m.decls.usings

/-- What the imports of the module at `path` name, or the first that names nothing
(`resolve_imports`). -/
def resolveImports (r : Registry) (path : String) : Except Diagnostic (List String) :=
  let i := r.importsOf path
  match i.failed with
  | none => .ok i.resolved
  | some u => .error (notFound u)

/-- Records with a module what its imports name (`resolve_and_record`). -/
def recordImports (r : Registry) (path : String) : Registry :=
  let i := r.importsOf path
  r.setImports path i.resolved (i.failed.map (·.path))

/-- The fault in the imports of a module. -/
def importFault? (r : Registry) (path : String) : Option Diagnostic :=
  (r.importsOf path).failed.map notFound

end MgLang.Registry
