/-!
# Packages

Where a module comes from: the project being checked, a dependency unpacked below it, or the
built-in library.
-/

namespace MgLang

/-- The origin of a module (`PackageOrigin`). -/
inductive Package where
  /-- The project being checked. -/
  | root (name : String)
  /-- A package that the project depends on. -/
  | dependency (name : String)
  /-- The library that is always there. -/
  | builtin
deriving DecidableEq, Repr

namespace Package

/-- The name of the package. -/
def name : Package → String
  | root name | dependency name => name
  | builtin => "Std"

/-- The package as it is shown in a message. -/
def text : Package → String
  | root name => s!"package {name}"
  | dependency name => s!"dependency {name}"
  | builtin => "built-in library"

end Package

end MgLang
