import MgLang.Scope.Stack
import MgLang.Typing.Subtype
import MgLang.Typing.Receiver
/-!
# The state of a type check

What a type check knows where it stands, and the steps it is made of: reporting a fault, recording
the type of an expression, looking at a declared type, and opening a scope for as long as something
is checked in it.

`CheckContext` has the fields of `TypeChecker` that a check only reads, `Checker` those that it
changes. A step returns the type that the function of the same case does, and leaves the operands to
the walk.
-/

namespace MgLang

/-- What a type check looks things up in. -/
structure CheckContext where
  registry : Registry
  /-- What the identifiers of the module refer to. -/
  names : Names
  /-- The module that is checked. -/
  module : Module

/-- An expression with its type. -/
structure TypedNode where
  node : Node
  ty : Ty
deriving DecidableEq, Repr

/-- What a type check knows where it stands, and what it has found out (`TypeChecker`). -/
structure Checker where
  /-- The types of the variables that can be seen. -/
  locals : ScopeStack Ty := {}
  /-- The type that the innermost function is to return. -/
  expected : Option Ty := none
  /-- The class whose body is being checked. -/
  enclosing : Option String := none
  /-- The faults, in the order in which they were met. -/
  errors : Array Diagnostic := #[]
  /-- The types of expressions, in the order in which they were found. -/
  types : Array TypedNode := #[]

/-- A step of a type check. -/
abbrev Check (α : Type) : Type := StateM Checker α

namespace Check

/-- Reports a fault. -/
def report (cause : Cause) (span : Span) : Check Unit :=
  modify fun s => { s with errors := s.errors.push ⟨cause, span⟩ }

/-- Reports that one type stands where another is expected (`TypeChecker::mismatch`). -/
def mismatch (expected received : Ty) (span : Span) : Check Unit :=
  report (.typeMismatch expected.text received.text) span

/-- Reports a mismatch unless a value of the received type can be stored where the other is expected
(`TypeChecker::expect_assignable`). -/
def expectAssignable (received expected : Ty) (span : Span) : Check Unit :=
  if received.isAssignable expected then pure () else mismatch expected received span

/-- Records the type of an expression. -/
def record (node : Node) (ty : Ty) : Check Unit :=
  modify fun s => { s with types := s.types.push ⟨node, ty⟩ }

/-- The type of a variable, unknown if no such variable can be seen. -/
def localTy (name : String) : Check Ty := do
  return ((← get).locals.lookup name).getD .unknown

/-- Gives a variable its type, in the innermost scope. -/
def declare (name : String) (ty : Ty) : Check Unit :=
  modify fun s => { s with locals := s.locals.declare name ty }

/-- Does something in a scope of its own. -/
def inScope {α : Type} (x : Check α) : Check α := do
  modify fun s => { s with locals := s.locals.push }
  let a ← x
  modify fun s => { s with locals := s.locals.pop }
  return a

/-- Does something in a function that is to return a type. -/
def returning {α : Type} (ty : Ty) (x : Check α) : Check α := do
  let outer := (← get).expected
  modify fun s => { s with expected := some ty }
  let a ← x
  modify fun s => { s with expected := outer }
  return a

/-- Does something in the body of a class. -/
def inClass {α : Type} (name : String) (x : Check α) : Check α := do
  let outer := (← get).enclosing
  modify fun s => { s with enclosing := some name }
  let a ← x
  modify fun s => { s with enclosing := outer }
  return a

end Check

namespace CheckContext

/-- The class that a name means in the module that is checked (`TypeChecker::class_decl`). -/
def class? (cx : CheckContext) (name : String) : Option (Module × ClassDecl) :=
  cx.registry.classDecl? name cx.module.path

/-- The module that is checked may use a declaration of another module, or it is its own. -/
def mayUse (cx : CheckContext) (isPublic : Bool) (owner : Module) : Bool :=
  isPublic || owner.path == cx.module.path

/-- Reports that a class is unknown (`TypeChecker::undefined_class`). A failed import may have
declared it, and excuses it. -/
def undefinedClass (cx : CheckContext) (name : String) (span : Span) : Check Unit :=
  if cx.module.importFailed then pure () else Check.report (.undefinedClass name) span

/-- Reports the classes that a declared type names and that are unknown
(`TypeChecker::check_annotation`). -/
def checkAnnotation (cx : CheckContext) (ty : Ty) (span : Span) : Check Unit :=
  ty.classNames.forM fun name =>
    if (cx.class? name).isSome then pure () else cx.undefinedClass name span

/-- Looks at the declared types of parameters, and gives the parameters their types
(`TypeChecker::declare_params`). -/
def declareParams (cx : CheckContext) (params : List Param) : Check Unit :=
  params.forM fun p => do
    cx.checkAnnotation p.ty p.span
    Check.declare p.name p.ty

/-- The type of an identifier (`check_ident`). One that could not be bound has been reported
before. -/
def identTy (cx : CheckContext) (node : Nat) (name : String) : Check Ty :=
  let r := cx.registry
  match cx.names.binding? node with
  | some (.variable _ _) => Check.localTy name
  | some (.function path idx) => pure (((r.functionAt? path idx).map (·.signature)).getD .unknown)
  | some (.classAt path idx) => pure (((r.classAt? path idx).map (Ty.named ·.name)).getD .unknown)
  | some (.member path idx member) =>
    pure (((r.memberAt? path idx member).map (·.ty)).getD .unknown)
  | _ => pure .unknown

/-- The type of a function or class of module `path` that is reached by the short name of the module
(`check_module_member`). -/
def moduleMemberTy (cx : CheckContext) (path name : String) (span : Span) : Check Ty :=
  match cx.registry.find? path with
  | none => pure .unknown
  | some m =>
    match m.symbol? name with
    | none => do
      Check.report (.unknownMember path name) span
      return .unknown
    | some symbol => do
      unless cx.mayUse symbol.isPublic m do
        Check.report (.visibilityViolation name m.path) span
      return match symbol.decl with
        | .function idx => ((m.decls.functions[idx]?).map (·.signature)).getD .unknown
        | .classAt idx => ((m.decls.classes[idx]?).map (Ty.named ·.name)).getD .unknown
        | .builtin => .unknown

/-- The type of a member of a class (`check_class_member`). Taken from the class itself, and not
from an instance, it has to be static. Inside the body of a class its private members can be used
(`inside_class`) because they are those of the module that is checked. -/
def classMemberTy (cx : CheckContext) (className name : String) (fromClass : Bool) (span : Span) :
    Check Ty :=
  match cx.class? className with
  | none => do
    cx.undefinedClass className span
    return .unknown
  | some (owner, decl) =>
    match decl.member? name with
    | none => do
      Check.report (.unknownMember className name) span
      return .unknown
    | some member =>
      if fromClass && !member.isStatic then do
        Check.report (.unknownMember className name) span
        return .unknown
      else do
        unless cx.mayUse member.isPublic owner do
          Check.report (.visibilityViolation (className ++ "." ++ name) owner.path) span
        return member.ty

/-- The type of a member of a value (the end of `check_member`). -/
def valueMemberTy (cx : CheckContext) (receiver : Ty) (name : String) (fromClass : Bool)
    (span : Span) : Check Ty :=
  match receiver with
  | .named className => cx.classMemberTy className name fromClass span
  | .unknown => pure .unknown
  | _ =>
    match receiver.builtinMember? name with
    | some ty => pure ty
    | none => do
      Check.report (.unknownMember receiver.text name) span
      return .unknown

/-- The type of a new instance (`compute_expr_type` at `new`). -/
def instanceTy (cx : CheckContext) (className : String) (span : Span) : Check Ty :=
  match cx.class? className with
  | some (owner, decl) => do
    unless cx.mayUse decl.isPublic owner do
      Check.report (.visibilityViolation className owner.path) span
    return .named className
  | none => do
    cx.undefinedClass className span
    return .unknown

end CheckContext

namespace Check

/-- The type that an operator between operands of the given types has (`check_binary`). -/
def binaryTy (op : BinaryOp) (left right : TypedNode) (span : Span) : Check Ty :=
  if op.isLogical then do
    expectAssignable left.ty .bool left.node.span
    expectAssignable right.ty .bool right.node.span
    return .bool
  else
    match left.ty.common? right.ty with
    | none => do
      mismatch left.ty right.ty span
      return if op.isComparison then .bool else .unknown
    | some common =>
      if op.isComparison then pure .bool
      else if common.isNumeric then pure common
      else if common = .string ∧ op = .add then pure .string
      else do
        mismatch .float common span
        return .unknown

/-- The type that an operator before an operand of the given type has. -/
def unaryTy (op : UnaryOp) (operand : TypedNode) : Check Ty :=
  match op with
  | .negate =>
    if operand.ty.isNumeric then pure operand.ty
    else do
      mismatch .float operand.ty operand.node.span
      return .unknown
  | .not => do
    expectAssignable operand.ty .bool operand.node.span
    return .bool

/-- The type of the elements that a `for` runs over. -/
def elementTy (iterable : TypedNode) : Check Ty :=
  match iterable.ty with
  | .array inner => pure inner
  | .unknown => pure .unknown
  | other => do
    mismatch (.array .unknown) other iterable.node.span
    return .unknown

/-- The type of what an index takes out of a value. A string is made of strings. -/
def indexedTy (object : TypedNode) : Check Ty :=
  match object.ty with
  | .string => pure .string
  | _ => elementTy object

/-- Looks at the pattern of an arm against the type of what is matched, and gives the name in the
pattern its type. -/
def declarePattern (scrutinee : Ty) (pattern : ArmPattern) (span : Span) : Check Unit :=
  match pattern with
  | .wildcard => pure ()
  | .some name _ => do
    let inner ← match scrutinee with
      | .option inner => pure inner
      | .unknown => pure .unknown
      | other => do
        mismatch (.option .unknown) other span
        pure .unknown
    declare name inner
  | .none =>
    match scrutinee with
    | .option _ | .unknown => pure ()
    | other => mismatch (.option .unknown) other span

/-- The type of an array whose elements have had the type `common` so far, after another element. -/
def joinElement (common : Ty) (element : TypedNode) : Check Ty :=
  match common.common? element.ty with
  | some ty => pure ty
  | none => do
    mismatch common element.ty element.node.span
    return common

end Check

end MgLang
