import MgLang.Compilation
import MgLang.Files.Access
import MgLang.Project.Manifest
/-!
# Loading files

How the sources of a project are found and loaded, and how files are loaded that a user names. It
works over any access to files, real ones or those of a `FileTree`.
-/

namespace MgLang

/-- Why a project cannot be loaded (`DriverError`). -/
inductive LoadFault where
  /-- A file cannot be read. -/
  | unreadable (path : String) (fault : ReadFault)
  /-- The manifest says nothing that makes sense. -/
  | badManifest (path : String)
deriving DecidableEq, Repr

namespace LoadFault

/-- The path of the file with the fault. -/
def path : LoadFault → String
  | unreadable path _ | badManifest path => path

/-- The fault as it is shown to a user. -/
def text : LoadFault → String
  | unreadable path fault => s!"cannot read {path}: {fault.text}"
  | badManifest path => s!"invalid project manifest {path}: TOML parse error"

end LoadFault

/-- A source file of a project. -/
structure SourceFile where
  /-- The path by which it is read. -/
  path : String
  /-- The path by which it is known in messages, relative to the project. -/
  display : String
  /-- The path of the module that it is part of. -/
  module : String
  package : Package
deriving DecidableEq, Repr

/-- The file holds source text: its name ends in `.mg`, and has more to it. -/
def isSourceName (path : String) : Bool :=
  let name := lastPiece '/' path.toList
  name.length > 3 && ".mg".toList.isSuffixOf name

namespace Manifest

/-- The directories with sources and the packages they belong to, those of the project first. -/
def sourceRoots (m : Manifest) : List (String × Package) :=
  m.sourceDirs.map (fun dir => (dir, m.package)) ++
    m.dependencies.keys.map fun name =>
      (joinPath (joinPath packagesDir name) "src", .dependency name)

end Manifest

section

variable {m : Type → Type} [Monad m]

/-- Reads a file as text. -/
def readText (fs : FileAccess m) (path : String) : ExceptT LoadFault m String := do
  match ← fs.read path with
  | .ok text => return text
  | .error fault => throw (.unreadable path fault)

/-- Reads the manifest of the project in a directory (`ProjectConfig::load`). -/
def readManifest (fs : FileAccess m) (root : String) : ExceptT LoadFault m Manifest := do
  let path := joinPath root Manifest.fileName
  match Manifest.parse? (← readText fs path) with
  | some manifest => return manifest
  | none => throw (.badManifest path)

/-- The source files in some directories of a project (`collect_package` over each, which `walk`s
it). A directory that is not there holds none. -/
def sourcesIn (fs : FileAccess m) (root : String) : List (String × Package) → m (List SourceFile)
  | [] => return []
  | (dir, package) :: rest => do
    let base := joinPath root dir
    let files := ((← fs.list base).getD []).filter isSourceName
    let here := files.map fun file =>
      let path := joinPath base file
      { path, display := relativePath root path, module := modulePath file package, package }
    return here ++ (← sourcesIn fs root rest)

/-- The source files of a project, in the order of the paths by which they are known
(`collect_sources`). -/
def collectSources (fs : FileAccess m) (root : String) (manifest : Manifest) :
    m (List SourceFile) := do
  let sources ← sourcesIn fs root manifest.sourceRoots
  return sources.mergeSort fun a b => a.display ≤ b.display

/-- Adds source files to a compilation (`Compilation::add_file` for each). -/
def addFiles (fs : FileAccess m) : List SourceFile → Compilation → ExceptT LoadFault m Compilation
  | [], c => return c
  | s :: rest, c => do
    let text ← readText fs s.path
    addFiles fs rest (c.addAs s.module s.display text s.package)

/-- Loads the project in a directory (`Compilation::load_project`). -/
def loadProject (fs : FileAccess m) (root : String) :
    ExceptT LoadFault m (Manifest × Compilation) := do
  let manifest ← readManifest fs root
  let sources ← ExceptT.lift (collectSources fs root manifest)
  return (manifest, ← addFiles fs sources {})

/-- The source file that a user names by its path. -/
def looseFile (cwd : String) (package : Package) (path : String) : SourceFile :=
  { path, display := .ofList (path.toList.map fun c => if c = '\\' then '/' else c),
    module := loosePath path cwd package, package }

/-- Loads files that a user names by their paths, as one package (`load_files`). -/
def loadLoose (fs : FileAccess m) (cwd : String) (package : String) (paths : List String) :
    ExceptT LoadFault m Compilation :=
  addFiles fs (paths.map (looseFile cwd (.root package))) {}

end

end MgLang
