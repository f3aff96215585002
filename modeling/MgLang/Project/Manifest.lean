import MgLang.Keyed
import MgLang.Module.Package
import MgLang.Toml.Document
/-!
# Project manifests

What the file `project.toml` says about a project: its name, its version, the directories with its
sources, and the packages that it depends on. All but the name may be left out (`default_version`,
`default_source_dirs`).
-/

namespace MgLang

/-- What a manifest says (`ProjectConfig`). -/
structure Manifest where
  name : String
  version : String := "0.1.0"
  /-- The directories with sources, relative to that of the manifest. -/
  sourceDirs : List String := ["src"]
  /-- The packages that are depended on, with the versions asked for. -/
  dependencies : Keyed String := ∅

namespace Manifest

/-- The name of the file that holds the manifest. -/
def fileName : String := "project.toml"

/-- The text that a value is. -/
def text? : Toml → Option String
  | .string s => some s
  | _ => none

/-- The texts that the items of an array are. -/
def texts? : Toml → Option (List String)
  | .array items => items.mapM text?
  | _ => none

/-- Reads a value if there is one. -/
def ifThere {α : Type} (read : Toml → Option α) (default : α) : Option Toml → Option α
  | none => some default
  | some value => read value

/-- The manifest without dependencies from the values of its three entries. -/
def ofValues (name version sourceDirs : Option Toml) : Option Manifest := do
  let name ← name.bind text?
  let plain : Manifest := { name }
  return { plain with
    version := ← ifThere text? plain.version version
    sourceDirs := ← ifThere texts? plain.sourceDirs sourceDirs }

/-- The manifest without dependencies from the value of `project`. An array holds the entries in
their order. -/
def ofProject : Toml → Option Manifest
  | .table _ es => ofValues (es.lookup "name") (es.lookup "version") (es.lookup "source_dirs")
  | .array items => ofValues items[0]? items[1]? items[2]?
  | _ => none

/-- The key under which a date stands if it is taken for a table. -/
def dateKey : String := "$__toml_private_datetime"

/-- The dependencies from the value of `dependencies`. -/
def dependenciesOf : Toml → Option (Keyed String)
  | .table _ es => do
    let entries ← es.mapM fun (key, value) => do return (key, ← text? value)
    return .ofList entries
  | .date text => some (.ofList [(dateKey, text)])
  | _ => none

/-- What the text of a manifest says (`ProjectConfig::parse`). Entries that mean nothing here are
passed over. -/
def parse? (text : String) : Option Manifest := do
  let es ← Toml.parse? text
  let plain ← (es.lookup "project").bind ofProject
  return { plain with
    dependencies := ← ifThere dependenciesOf ∅ (es.lookup "dependencies") }

/-- The package of the project (`ProjectConfig::root_package`). -/
def package (m : Manifest) : Package :=
  .root m.name

end Manifest

end MgLang
