import MgLang.Scope.Names
/-!
# Finding one's way in a program

From an identifier to the declaration it refers to, from a declaration to the identifiers that
refer to it, and from the beginning of a name to the names that can be meant.
-/

namespace MgLang

/-- Where something is declared. -/
structure Definition where
  name : String
  kind : SymbolKind
  /-- The path of the module. -/
  module : String
  span : Span
deriving DecidableEq, Repr

namespace Registry

/-- The symbols of all modules that come from source files, by path (`symbols`). -/
def sourceSymbols (r : Registry) : List Symbol :=
  r.sourceModules.flatMap (·.symbols)

/-- The declaration that a binding found in module `origin` refers to (`definition_of`). What is
built in has none, and neither has a module. -/
def definition? (r : Registry) (origin : String) : Binding → Option Definition
  | .function module idx =>
    (r.functionAt? module idx).map fun f => ⟨f.name, .function, module, f.nameSpan⟩
  | .classAt module idx =>
    (r.classAt? module idx).map fun c => ⟨c.name, .classType, module, c.nameSpan⟩
  | .member module idx name =>
    (r.memberAt? module idx name).map fun
      | .field f => ⟨name, .value, module, f.span⟩
      | .method m => ⟨name, .function, module, m.nameSpan⟩
  | .variable name span => some ⟨name, .value, origin, span⟩
  | .namespaceOf _ | .builtin _ _ | .intrinsic _ => none

/-- The names that can be used at the top of a module and begin with the given text, in their order
(`completions`). -/
def completions (r : Registry) (path start : String) : List (String × Binding) :=
  match r.find? path with
  | none => []
  | some m => (r.rootScope m).visible.entries.filter fun e => start.toList.isPrefixOf e.1.toList

end Registry

/-- The reference stands no later than the other: in an earlier file, or no later in the same
file. -/
def Reference.noLater (a b : Reference) : Bool :=
  a.span.file < b.span.file || (a.span.file == b.span.file && a.span.start ≤ b.span.start)

namespace Names

/-- The declaration of what the cursor touches (`definition_at`). -/
def definitionAt? (n : Names) (r : Registry) (file : String) (offset : Nat) : Option Definition :=
  (n.referenceAt? file offset).bind fun ref => r.definition? n.module ref.binding

/-- The references with that binding, in the order in which they stand in the files
(`references_to`). -/
def referencesTo (n : Names) (binding : Binding) : List Reference :=
  (n.references.toList.filter (·.binding == binding)).mergeSort Reference.noLater

end Names

end MgLang
