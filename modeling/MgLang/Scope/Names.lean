import MgLang.Scope.Root
/-!
# Binding names

Every identifier of a module is looked up in the scopes that are open where it stands. The walk
follows the source, classes before functions, and opens a scope for each class, function, block,
`for`, arm and anonymous function. A `let` binds its name for what follows it in its block.

`bindExpr` and its companions thread the state of the walk; `Registry.names` is its result for a
module.
-/

namespace MgLang

/-- How an identifier is used. A failed import could only have provided a function or a
namespace, so it excuses a missing name that is called or has a member taken from it, and no
other. -/
inductive Usage where
  | value | callee | receiver
deriving DecidableEq, Repr

/-- What the walk looks things up in. -/
structure NameContext where
  registry : Registry
  module : Module

/-- The state of the walk (`NameResolver`). -/
structure Binder where
  scopes : ScopeStack Binding
  errors : Array Diagnostic := #[]
  references : Array Reference := #[]

namespace Binder

/-- Opens a scope. -/
def push (b : Binder) : Binder :=
  { b with scopes := b.scopes.push }

/-- Closes a scope. -/
def pop (b : Binder) : Binder :=
  { b with scopes := b.scopes.pop }

/-- Binds a name in the innermost scope. -/
def declare (b : Binder) (name : String) (binding : Binding) : Binder :=
  { b with scopes := b.scopes.declare name binding }

/-- Binds the name of a variable to the place where it is declared. -/
def declareVariable (b : Binder) (name : String) (span : Span) : Binder :=
  b.declare name (.variable name span)

/-- Binds the names of parameters (`NameResolver::declare_params`). -/
def declareParams (b : Binder) (params : List Param) : Binder :=
  params.foldl (fun b p => b.declareVariable p.name p.span) b

/-- Records what an expression refers to (`NameResolver::record`). -/
def record (b : Binder) (node : Nat) (name : String) (span : Span) (binding : Binding) : Binder :=
  { b with references := b.references.push ⟨name, node, span, binding⟩ }

/-- Reports a fault. -/
def report (b : Binder) (cause : Cause) (span : Span) : Binder :=
  { b with errors := b.errors.push ⟨cause, span⟩ }

end Binder

/-- Why a name that is bound to nothing is a fault, if it is one. -/
def NameContext.unboundCause? (cx : NameContext) (name : String) (usage : Usage) : Option Cause :=
  match cx.registry.privateOwner? cx.module name with
  | some owner => some (.visibilityViolation name owner)
  | none =>
    if cx.module.importFailed ∧ usage ≠ .value then none else some (.undefinedIdentifier name)

/-- Looks an identifier up (`NameResolver::lookup`). -/
def bindIdent (cx : NameContext) (b : Binder) (node : Node) (name : String) (usage : Usage) :
    Binder :=
  match b.scopes.lookup name with
  | some binding => b.record node.id name node.span binding
  | none =>
    match cx.unboundCause? name usage with
    | some cause => b.report cause node.span
    | none => b

mutual

/-- Binds the names in an expression (`resolve_expr`, and `resolve_operand` for the usage). The name
behind a dot is not looked up: what it means depends on the type before the dot. -/
def bindExpr (cx : NameContext) (b : Binder) (usage : Usage) : Expr → Binder
  | .int _ _ | .float _ _ | .string _ _ | .bool _ _ | .this _ | .noneLit _ => b
  | .interpolated _ parts => bindParts cx b parts
  | .ident node name => bindIdent cx b node name usage
  | .someOf _ inner => bindExpr cx b .value inner
  | .binary _ _ left right => bindExpr cx (bindExpr cx b .value left) .value right
  | .unary _ _ operand => bindExpr cx b .value operand
  | .assign _ target value => bindExpr cx (bindExpr cx b .value target) .value value
  | .call _ callee args => bindExprs cx (bindExpr cx b .callee callee) args
  | .member _ object _ _ => bindExpr cx b .receiver object
  | .index _ object index => bindExpr cx (bindExpr cx b .value object) .value index
  | .new node className classSpan args =>
    let b :=
      match b.scopes.lookup className with
      | some (.classAt module idx) => b.record node.id className classSpan (.classAt module idx)
      | _ => b
    bindExprs cx b args
  | .array _ items => bindExprs cx b items
  | .lambda _ params _ body => (bindBlock cx (b.push.declareParams params) body).pop

/-- Binds the names in expressions, one after the other. -/
def bindExprs (cx : NameContext) (b : Binder) : List Expr → Binder
  | [] => b
  | e :: es => bindExprs cx (bindExpr cx b .value e) es

/-- Binds the names in the holes of an interpolated string. -/
def bindParts (cx : NameContext) (b : Binder) : List Part → Binder
  | [] => b
  | .text _ :: ps => bindParts cx b ps
  | .hole e :: ps => bindParts cx (bindExpr cx b .value e) ps

/-- Binds the names in a statement (`resolve_stmt`). -/
def bindStmt (cx : NameContext) (b : Binder) : Stmt → Binder
  | .letStmt name _ _ value nameSpan _ => (bindExpr cx b .value value).declareVariable name nameSpan
  | .returnStmt none _ => b
  | .returnStmt (some value) _ => bindExpr cx b .value value
  | .ifStmt condition body none _ => bindBlock cx (bindExpr cx b .value condition) body
  | .ifStmt condition body (some otherwise) _ =>
    bindStmt cx (bindBlock cx (bindExpr cx b .value condition) body) otherwise
  | .whileStmt condition body _ => bindBlock cx (bindExpr cx b .value condition) body
  | .forStmt name nameSpan iterable body _ =>
    (bindBlock cx ((bindExpr cx b .value iterable).push.declareVariable name nameSpan) body).pop
  | .matchStmt scrutinee arms _ => bindArms cx (bindExpr cx b .value scrutinee) arms
  | .block body => bindBlock cx b body
  | .expr value => bindExpr cx b .value value

/-- Binds the names in statements, one after the other. -/
def bindStmts (cx : NameContext) (b : Binder) : List Stmt → Binder
  | [] => b
  | s :: ss => bindStmts cx (bindStmt cx b s) ss

/-- Binds the names in a block, in a scope of its own (`resolve_block`). -/
def bindBlock (cx : NameContext) (b : Binder) : Block → Binder
  | ⟨stmts, _⟩ => (bindStmts cx b.push stmts).pop

/-- Binds the names in arms, each in a scope that holds the name of its pattern. -/
def bindArms (cx : NameContext) (b : Binder) : List Arm → Binder
  | [] => b
  | ⟨.some name span, body, _⟩ :: arms =>
    bindArms cx (bindBlock cx (b.push.declareVariable name span) body).pop arms
  | ⟨_, body, _⟩ :: arms => bindArms cx (bindBlock cx b.push body).pop arms

end

/-- Binds the names in a function or method (`resolve_function`). -/
def bindFunction (cx : NameContext) (b : Binder) (f : FunctionDecl) : Binder :=
  (bindBlock cx (b.push.declareParams f.params) f.body).pop

/-- The names of the members of a class: its fields, then its methods. -/
def ClassDecl.memberNames (c : ClassDecl) : List String :=
  c.fields.map (·.name) ++ c.methods.map (·.name)

/-- Binds the names in a class, in a scope that holds its members: first in the initial values of
its fields, then in its methods (`resolve_class`). -/
def bindClass (cx : NameContext) (b : Binder) (idx : Nat) (c : ClassDecl) : Binder :=
  let inside := c.memberNames.foldl
    (fun b name => b.declare name (.member cx.module.path idx name)) b.push
  let withFields := bindExprs cx inside (c.fields.filterMap (·.initial))
  (c.methods.foldl (bindFunction cx) withFields).pop

/-- Binds the names in a module that starts out with the given scopes. -/
def bindModule (cx : NameContext) (scopes : ScopeStack Binding) : Binder :=
  let withClasses := cx.module.decls.classes.zipIdx.foldl
    (fun b (c, idx) => bindClass cx b idx c) { scopes }
  (cx.module.decls.functions.foldl (bindFunction cx) withClasses).pop

namespace Registry

/-- The identifiers of the module at a path (`resolve_names`). Nothing is known about a path without
a module. -/
def names (r : Registry) (path : String) : Names :=
  match r.find? path with
  | none => { module := path }
  | some m =>
    let b := bindModule ⟨r, m⟩ (r.rootScope m)
    { module := path, errors := b.errors, references := b.references, imports := b.scopes.imports,
      maxDepth := b.scopes.maxDepth, finalDepth := b.scopes.depth }

end Registry

end MgLang
