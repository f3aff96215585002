import MgLang.Diagnostic.Basic
import MgLang.Module.Basic
/-!
# The registry

All modules of a compilation, in the order of their paths. The built-in namespaces are always
there. A path belongs to the package that claimed it first, and the files of that package are
merged under it.
-/

namespace MgLang

/-- The modules of a compilation by path (`ModuleRegistry`). -/
structure Registry where
  /-- The modules. -/
  modules : Keyed Module
  /-- Every module stands under its own path. -/
  path_eq : ∀ e ∈ modules.entries, e.2.path = e.1

namespace Registry

/-- Adds a module, in the place of a module with the same path. -/
def insert (r : Registry) (m : Module) : Registry where
  modules := r.modules.insert m.path m
  path_eq e he := by
    rcases Keyed.key_mem_insertEntry he with rfl | he
    · rfl
    · exact r.path_eq e he

/-- Changes the module at a path, which stays at that path. -/
def modify (r : Registry) (path : String) (f : Module → Module) (hf : ∀ m, (f m).path = m.path) :
    Registry where
  modules := r.modules.modify path f
  path_eq e he := by
    obtain ⟨x, hx, rfl⟩ := List.mem_map.1 he
    split
    · rw [hf]; exact r.path_eq x hx
    · exact r.path_eq x hx

/-- The registry without any module. -/
def empty : Registry := ⟨∅, fun _ h => nomatch h⟩

/-- The registry that holds only the built-in namespaces (`ModuleRegistry::new`). -/
def initial : Registry :=
  Builtin.namespaces.keys.foldl (fun r path => r.insert (.builtin path)) empty

instance : Inhabited Registry := ⟨initial⟩

/-- The module at a path (`ModuleRegistry::find`). -/
def find? (r : Registry) (path : String) : Option Module :=
  r.modules.get? path

/-- There is a module at that path (`ModuleRegistry::contains`). -/
def contains (r : Registry) (path : String) : Bool :=
  (r.find? path).isSome

/-- All paths, ascending. -/
def paths (r : Registry) : List String :=
  r.modules.keys

/-- The modules that come from source files, by path (`ModuleRegistry::source_modules`). -/
def sourceModules (r : Registry) : List Module :=
  r.modules.values.filter (!·.isBuiltin)

/-- The symbols of all modules, by path (`ModuleRegistry::symbols`). -/
def symbols (r : Registry) : List Symbol :=
  r.modules.values.flatMap (·.symbols)

/-- Adds what a file declares (`ModuleRegistry::register`). A path that another package has claimed
is refused, at the start of the file. -/
def register (r : Registry) (m : Module) : Except Diagnostic Registry :=
  match r.find? m.path with
  | none => .ok (r.insert m)
  | some existing =>
    if existing.package = m.package then
      .ok (r.modify m.path (·.merge m) fun _ => rfl)
    else
      .error
        ⟨.moduleConflict m.path existing.package.text m.package.text,
          (m.files.head?.map Span.fileStart).getD .null⟩

/-- The names of the dependencies that have a module, ascending
(`ModuleRegistry::dependency_packages`). -/
def dependencies (r : Registry) : List String :=
  let names := r.modules.values.filterMap fun m =>
    match m.package with
    | .dependency name => some (name, ())
    | _ => none
  (Keyed.ofList names).keys

/-- Records what the imports of a module turned out to name, and the import that names nothing
(`set_resolved_imports` and `mark_import_failed`). -/
def setImports (r : Registry) (path : String) (imports : List String) (failed : Option String) :
    Registry :=
  r.modify path (fun m => { m with resolvedImports := imports, failedImport := failed })
    fun _ => rfl

/-- The paths of modules in the order in which module `origin` searches them for a class
(`order` in `ModuleRegistry::find_class`): its own, those it imports, all others. -/
def searchOrder (r : Registry) (origin : String) : List String :=
  let imports := ((r.find? origin).map (·.resolvedImports)).getD []
  origin :: imports ++ r.paths.filter (· != origin)

/-- The class that a name means inside module `origin`: the first of that name in the first module
that has one, with its place there (`ModuleRegistry::find_class`). -/
def findClass? (r : Registry) (name origin : String) : Option (Module × Nat) :=
  (r.searchOrder origin).findSome? fun path => do
    let m ← r.find? path
    let idx ← m.decls.classIdx? name
    return (m, idx)

/-- The class that a name means inside module `origin`, with the module that declares it
(`ModuleRegistry::class_decl`). -/
def classDecl? (r : Registry) (name origin : String) : Option (Module × ClassDecl) := do
  let (m, idx) ← r.findClass? name origin
  let decl ← m.decls.classes[idx]?
  return (m, decl)

/-- The function at a place of a module. -/
def functionAt? (r : Registry) (path : String) (idx : Nat) : Option FunctionDecl :=
  (r.find? path).bind (·.decls.functions[idx]?)

/-- The class at a place of a module. -/
def classAt? (r : Registry) (path : String) (idx : Nat) : Option ClassDecl :=
  (r.find? path).bind (·.decls.classes[idx]?)

/-- The member of that name of the class at a place of a module. -/
def memberAt? (r : Registry) (path : String) (idx : Nat) (name : String) : Option Member :=
  (r.classAt? path idx).bind (·.member? name)

end Registry

end MgLang
