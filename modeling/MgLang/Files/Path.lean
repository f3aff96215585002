import MgLang.Module.Path
/-!
# Paths of files

A path is a row of parts between slashes. Empty parts do not count, and neither does a `.`, unless
the path begins with it. A file that is named outright, and not found below a source directory,
belongs to the module whose path is what stands behind the last `src` in its path.
-/

namespace MgLang

/-- A part of the path of a file. -/
inductive PathPart where
  /-- The slash that an absolute path begins with. -/
  | top
  /-- A `.` at the beginning. -/
  | current
  /-- The directory above. -/
  | parent
  | name (text : String)
deriving DecidableEq, Repr

namespace PathPart

/-- The part as it is written. -/
def text : PathPart → String
  | top => "/"
  | current => "."
  | parent => ".."
  | name text => text

/-- The name that a part is. -/
def name? : PathPart → Option String
  | name text => some text
  | _ => none

/-- The part that stands between two slashes behind the beginning of a path. -/
def ofSegment? (segment : List Char) : Option PathPart :=
  if segment = [] ∨ segment = ['.'] then none
  else if segment = ['.', '.'] then some parent
  else some (name (.ofList segment))

/-- What a path begins with. -/
def start : List (List Char) → List PathPart
  | [] :: _ :: _ => [top]
  | ['.'] :: _ => [current]
  | _ => []

/-- The parts of a path. -/
def split (path : String) : List PathPart :=
  let segments := splitOn '/' path.toList
  start segments ++ segments.filterMap ofSegment?

end PathPart

/-- The parts with slashes between them. -/
def joinNames (names : List String) : String :=
  .ofList (joinWith '/' (names.map (·.toList)))

/-- What stands behind the last `src`, everything if there is none. -/
def afterLastSrc (names : List String) : List String :=
  (names.reverse.takeWhile (· != "src")).reverse

/-- The path of the module that a file belongs to which was named outright (`loose_module_path`). A
path below the current directory `cwd` is taken from there. -/
def loosePath (path cwd : String) (package : Package) : String :=
  let parts := PathPart.split path
  let relative := ((PathPart.split cwd).isPrefixOf? parts).getD parts
  modulePath (joinNames (afterLastSrc (relative.filterMap PathPart.name?))) package

end MgLang
