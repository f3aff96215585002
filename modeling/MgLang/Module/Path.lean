import MgLang.Module.Builtin
import MgLang.Module.Package
import MgLang.Text.Split
/-!
# Module paths

A module is known by a dotted path, which is read off the path of its file, and an import names a
module by such a path or by the end of one. The functions here work on texts alone.
-/

namespace MgLang

/-- The text without that beginning, if it has it. -/
def dropFront (front cs : List Char) : List Char :=
  (front.isPrefixOf? cs).getD cs

/-- The text without that end, if it has it. -/
def dropBack (back cs : List Char) : List Char :=
  (back.isSuffixOf? cs).getD cs

/-- The path without the `./` that it begins with, however many there are. -/
def dropCurrent : List Char → List Char
  | '.' :: '/' :: r => dropCurrent r
  | cs => cs

/-- The directory that dependencies are unpacked into, each below its name (`PACKAGES_DIR`). -/
def packagesDir : String := ".magolor/packages"

/-- The beginning of the path of a source file of a dependency. -/
def dependencySources (name : String) : String :=
  packagesDir ++ "/" ++ name ++ "/src/"

/-- The segments of a file path below the sources of its package, joined by dots, without `.mg`.
Backslashes separate as slashes do. -/
def dottedPath (file : String) (package : Package) : String :=
  let slashed := file.toList.map fun c => if c = '\\' then '/' else c
  let relative := dropCurrent slashed
  let inPackage :=
    match package with
    | .dependency name => dropFront (dependencySources name).toList relative
    | _ => relative
  let bare := dropBack ".mg".toList (dropFront "src/".toList inPackage)
  .ofList (bare.map fun c => if c = '/' then '.' else c)

/-- The module that a file is part of (`module_path_for_file`). The file `lib.mg` is the package
itself, and all other files of a dependency stand below its name. -/
def modulePath (file : String) (package : Package) : String :=
  let dotted := dottedPath file package
  match package with
  | .dependency name => if dotted = "lib" then name else name ++ "." ++ dotted
  | .root name => if dotted = "lib" then name else dotted
  | .builtin => dotted

/-- The last segment of a path, by which an importing module knows the module (`short_name`). -/
def shortName (path : String) : String :=
  .ofList (lastPiece '.' path.toList)

/-- The module and everything above it, nearest first. Empty segments do not count. -/
def selfAndAncestors (path : String) : List String :=
  let segments := (splitOn '.' path.toList).filter (!·.isEmpty)
  (List.range segments.length).reverse.map fun n =>
    .ofList (joinWith '.' (segments.take (n + 1)))

/-- The paths that an import inside module `importer` can mean, in the order in which they are
tried: the path as written, then below the importer, then below what stands above it
(`import_candidates`). A built-in namespace is only ever itself. -/
def importCandidates (path importer : String) : List String :=
  if Builtin.isNamespace path then [path]
  else path :: (selfAndAncestors importer).map fun above => above ++ "." ++ path

end MgLang
