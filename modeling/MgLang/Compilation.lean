import MgLang.Diagnostic.Render
import MgLang.Grammar.Unit
import MgLang.Module.Import
import MgLang.Scope.Names
import MgLang.Typing.Check
/-!
# Compilations

Source files that are checked together. Adding a file reads it and registers what it declares; a
file that cannot be read or registered leaves nothing behind but a fault, which every later report
shows. A check resolves the imports of all modules before it looks at any name, so that the order
in which modules were added plays no part.

`Compilation::check` is one function. Here its stages have names: `recordImports` and
`importFault?` for the imports, `reportedPaths` for what the report speaks of, and `moduleReport`
for each entry of it.
-/

namespace MgLang

/-- What a check found out about a module. -/
structure ModuleReport where
  /-- The path of the module. -/
  module : String
  /-- The faults from adding its files, then from its imports, its names and its types. -/
  diagnostics : List Diagnostic
  names : Names
  types : Types

/-- What a check found out, by path (`CheckReport`). -/
structure Report where
  modules : List ModuleReport := []

namespace Report

/-- All faults, by the path of the module (`CheckReport::diagnostics`). -/
def diagnostics (r : Report) : List Diagnostic :=
  r.modules.flatMap (·.diagnostics)

/-- The number of faults (`CheckReport::error_count`). -/
def errorCount (r : Report) : Nat :=
  r.modules.foldl (fun n m => n + m.diagnostics.length) 0

/-- There are faults (`CheckReport::has_errors`). -/
def hasErrors (r : Report) : Bool :=
  r.modules.any (!·.diagnostics.isEmpty)

theorem foldl_length_diagnostics (ms : List ModuleReport) (n : Nat) :
    ms.foldl (fun n m => n + m.diagnostics.length) n = n + (ms.flatMap (·.diagnostics)).length := by
  induction ms generalizing n with
  | nil => rfl
  | cons m ms ih =>
    rw [List.foldl_cons, ih, List.flatMap_cons, List.length_append, Nat.add_assoc]

/-- What is counted module by module is what there is in all. -/
theorem errorCount_eq (r : Report) : r.errorCount = r.diagnostics.length :=
  (foldl_length_diagnostics r.modules 0).trans (Nat.zero_add _)

theorem hasErrors_iff (r : Report) : r.hasErrors = true ↔ r.diagnostics ≠ [] := by
  simp [hasErrors, diagnostics, List.flatMap_eq_nil_iff]

/-- What was found out about the module at a path (`CheckReport::module`). -/
def module? (r : Report) (path : String) : Option ModuleReport :=
  r.modules.find? (·.module == path)

end Report

/-- Source files that are checked together. -/
structure Compilation where
  registry : Registry := .initial
  /-- The text of each file, the latest if it was added more than once. -/
  sources : Keyed String := ∅
  /-- The faults from adding files, by the path of the module that each was to be part of. -/
  failures : Keyed (List Diagnostic) := ∅
  /-- The number that the next expression gets. -/
  nextId : Nat := 0

namespace Compilation

instance : Inhabited Compilation := ⟨{}⟩

/-- Adds the text of a file as part of the module at `path` (`Compilation::add_source_as`). -/
def addAs (c : Compilation) (path file text : String) (package : Package) : Compilation :=
  let (parsed, nextId) := parseSource file text c.nextId
  let c := { c with sources := c.sources.insert file text, nextId }
  match parsed.bind fun decls => c.registry.register (.ofFile path package decls file) with
  | .ok registry => { c with registry }
  | .error d =>
    { c with failures := c.failures.insert path ((c.failures.get? path).getD [] ++ [d]) }

/-- Adds the text of a file as part of the module that its name stands for
(`Compilation::add_source`). -/
def add (c : Compilation) (file text : String) (package : Package) : Compilation :=
  c.addAs (modulePath file package) file text package

/-- The paths that a report speaks of, ascending: those of the modules from source files, and those
under which adding a file failed. -/
def reportedPaths (c : Compilation) : List String :=
  let paths := c.registry.sourceModules.map (·.path) ++ c.failures.keys
  (Keyed.ofList (paths.map fun path => (path, ()))).keys

/-- Records with every module from source files what its imports name. -/
def recordImports (c : Compilation) : Compilation :=
  { c with
    registry :=
      (c.registry.sourceModules.map (·.path)).foldl Registry.recordImports c.registry }

/-- The fault in the imports of the module at a path. What a built-in module imports is left alone,
also where files have added to it. -/
def importFault? (c : Compilation) (path : String) : Option Diagnostic :=
  if (c.registry.find? path).any (!·.isBuiltin) then c.registry.importFault? path else none

/-- What is to be said about the module at a path, once the imports of all modules are known. -/
def moduleReport (c : Compilation) (path : String) : ModuleReport :=
  let names := c.registry.names path
  let types := c.registry.check names
  { module := path
    diagnostics :=
      (c.failures.get? path).getD [] ++ (c.importFault? path).toList ++
        names.errors.toList ++ types.errors
    names, types }

/-- Checks all modules (`Compilation::check`). The compilation that comes back knows what the
imports name. -/
def check (c : Compilation) : Report × Compilation :=
  let c := c.recordImports
  (⟨c.reportedPaths.map c.moduleReport⟩, c)

/-- A fault as text, with the line of the file that it points into (`Compilation::render`). -/
def render (c : Compilation) (d : Diagnostic) : String :=
  d.render ((c.sources.get? d.span.file).getD "")

end Compilation

end MgLang
