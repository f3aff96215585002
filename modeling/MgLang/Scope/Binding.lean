import MgLang.Diagnostic.Basic
/-!
# What names mean

A `Binding` says what an identifier refers to, a `Reference` records one identifier with its
binding, and `Names` holds all that is known about the identifiers of a module. A cursor is
answered with the narrowest reference that it touches.
-/

namespace MgLang

/-- What an identifier refers to. -/
inductive Binding where
  /-- The function at that place of a module. -/
  | function (module : String) (idx : Nat)
  /-- The class at that place of a module. -/
  | classAt (module : String) (idx : Nat)
  /-- A field or method of the enclosing class, used by its bare name. -/
  | member (module : String) (classIdx : Nat) (name : String)
  /-- An imported module, known by its short name, or the built-in library itself. -/
  | namespaceOf (path : String)
  /-- A name that a built-in namespace offers. -/
  | builtin (space name : String)
  /-- A function that can be called without any import. -/
  | intrinsic (name : String)
  /-- What a parameter, `let`, `for` or arm declares at that place. -/
  | variable (name : String) (span : Span)
deriving DecidableEq, Repr

/-- One identifier and what it refers to. -/
structure Reference where
  name : String
  /-- The number of the expression. -/
  node : Nat
  span : Span
  binding : Binding
deriving DecidableEq, Repr

/-- The length of the text of a reference. -/
def Reference.width (r : Reference) : Nat :=
  r.span.stop - r.span.start

/-- The identifiers of a module (`NameResolution`). -/
structure Names where
  /-- The path of the module. -/
  module : String
  /-- The faults, in the order in which they were met. -/
  errors : Array Diagnostic := #[]
  /-- The bound identifiers, in the order in which they were met. -/
  references : Array Reference := #[]
  /-- The imports that hold in the module, in their order. -/
  imports : List String := []
  /-- The greatest number of scopes that were open at once. -/
  maxDepth : Nat := 0
  /-- The number of scopes that were left open. -/
  finalDepth : Nat := 0

namespace Names

/-- What the expression with that number refers to (`NameResolution::binding`). -/
def binding? (n : Names) (node : Nat) : Option Binding :=
  (n.references.find? (·.node == node)).map (·.binding)

/-- The narrower of two references. The first stays if they are equally wide. -/
def narrower (best : Option Reference) (r : Reference) : Option Reference :=
  match best with
  | none => some r
  | some b => if r.width < b.width then some r else some b

/-- The narrowest reference that a cursor touches (`NameResolution::reference_at`). -/
def referenceAt? (n : Names) (file : String) (offset : Nat) : Option Reference :=
  (n.references.toList.filter (·.span.Touches file offset)).foldl narrower none

end Names

end MgLang
