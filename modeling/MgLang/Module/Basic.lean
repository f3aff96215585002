import MgLang.Module.Path
import MgLang.Syntax.Decl
/-!
# Modules

A module is what one or more files declare under one path. Its functions and classes are known by
their place in its lists, and merging another file into it only adds at the end, so a place once
handed out keeps its meaning. The symbols of a module are kept with its declarations, and they are
always those that can be read off the declarations (`Module::derive_symbols`, with which
`Module::new`, `Module::builtin` and `Module::merge` end).
-/

namespace MgLang

/-- Where the declaration of a symbol stands in its module. -/
inductive DeclRef where
  /-- The function at that place. -/
  | function (idx : Nat)
  /-- The class at that place. -/
  | classAt (idx : Nat)
  /-- Nowhere: the symbol belongs to a built-in namespace. -/
  | builtin
deriving DecidableEq, Repr

/-- A top-level name of a module. -/
structure Symbol where
  name : String
  kind : SymbolKind
  /-- The path of the module. -/
  module : String
  decl : DeclRef
  isPublic : Bool
  span : Span
deriving DecidableEq, Repr

/-- The symbols that the module at a path has as a built-in namespace. -/
def Builtin.symbols (path : String) (package : Package) : List Symbol :=
  if package = .builtin then
    ((members? path).getD []).map fun name =>
      { name, kind := kindOf name, module := path, decl := .builtin, isPublic := true,
        span := .null }
  else []

namespace Declarations

/-- The symbols that the functions of the module at a path are. -/
def functionSymbols (d : Declarations) (path : String) : List Symbol :=
  d.functions.zipIdx.map fun (f, i) =>
    { name := f.name, kind := .function, module := path, decl := .function i,
      isPublic := f.isPublic, span := f.nameSpan }

/-- The symbols that the classes of the module at a path are. -/
def classSymbols (d : Declarations) (path : String) : List Symbol :=
  d.classes.zipIdx.map fun (c, i) =>
    { name := c.name, kind := .classType, module := path, decl := .classAt i,
      isPublic := c.isPublic, span := c.nameSpan }

/-- The top-level names of the module at a path: built-in ones, then functions, then classes
(`Module::derive_symbols`). -/
def symbols (d : Declarations) (path : String) (package : Package) : List Symbol :=
  Builtin.symbols path package ++ d.functionSymbols path ++ d.classSymbols path

end Declarations

/-- A module. -/
structure Module where
  path : String
  package : Package
  decls : Declarations
  /-- The modules that its imports turned out to name, in the order of the imports. -/
  resolvedImports : List String := []
  /-- The first import, as written, that names no module. -/
  failedImport : Option String := none
  /-- The files it was read from, in the order in which they were added. -/
  files : List String := []
  /-- Its top-level names. -/
  symbols : List Symbol := decls.symbols path package
  /-- The top-level names are those of the declarations. -/
  symbols_eq : symbols = decls.symbols path package := by rfl

namespace Module

/-- The top-level names need not be compared. -/
@[ext]
theorem ext {m m' : Module} (hpath : m.path = m'.path) (hpackage : m.package = m'.package)
    (hdecls : m.decls = m'.decls) (himports : m.resolvedImports = m'.resolvedImports)
    (hfailed : m.failedImport = m'.failedImport) (hfiles : m.files = m'.files) : m = m' := by
  obtain ⟨path, package, decls, imports, failed, files, symbols, rfl⟩ := m
  obtain ⟨path', package', decls', imports', failed', files', symbols', rfl⟩ := m'
  cases hpath
  cases hpackage
  cases hdecls
  cases himports
  cases hfailed
  cases hfiles
  rfl

/-- The module that one file declares (`Module::new`). -/
def ofFile (path : String) (package : Package) (decls : Declarations) (file : String) : Module :=
  { path, package, decls, files := [file] }

/-- The module that stands for a built-in namespace (`Module::builtin`). -/
def builtin (path : String) : Module :=
  { path, package := .builtin, decls := {} }

/-- The module comes from the built-in library. -/
def isBuiltin (m : Module) : Bool :=
  m.package == .builtin

/-- One of the imports names no module. -/
def importFailed (m : Module) : Bool :=
  m.failedImport.isSome

/-- The name by which importing modules know the module. -/
def shortName (m : Module) : String :=
  MgLang.shortName m.path

/-- The first symbol of that name (`Module::symbol`). -/
def symbol? (m : Module) (name : String) : Option Symbol :=
  m.symbols.find? (·.name == name)

/-- The symbols that other modules may use (`Module::public_symbols`). -/
def publicSymbols (m : Module) : List Symbol :=
  m.symbols.filter (·.isPublic)

/-- Adds those imports whose path is not among the imports yet. -/
def addUsings (known : List Using) : List Using → List Using
  | [] => known
  | u :: us =>
    if known.any (·.path == u.path) then addUsings known us else addUsings (known ++ [u]) us

/-- Adds those files that are not among the files yet. -/
def addFiles (known : List String) : List String → List String
  | [] => known
  | f :: fs => if known.contains f then addFiles known fs else addFiles (known ++ [f]) fs

/-- Adds what another file declares under the same path (`Module::merge`). The top-level names are
read off anew. -/
def merge (m other : Module) : Module where
  path := m.path
  package := m.package
  decls :=
    { usings := addUsings m.decls.usings other.decls.usings
      functions := m.decls.functions ++ other.decls.functions
      classes := m.decls.classes ++ other.decls.classes }
  resolvedImports := m.resolvedImports
  failedImport := m.failedImport
  files := addFiles m.files other.files

@[simp] theorem path_merge (m other : Module) : (m.merge other).path = m.path := rfl

end Module

end MgLang
