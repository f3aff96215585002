import MgLang.Syntax.Expr
/-!
# Declarations

What a source text declares: imports, functions and classes. Within a module a function or a class
is known by its place in the list, so declarations are only ever added at the end.
-/

namespace MgLang

/-- A `using` directive. -/
structure Using where
  /-- The path as written. -/
  path : String
  span : Span
deriving DecidableEq, Repr

/-- A function or a method (`FnDecl`). -/
structure FunctionDecl where
  name : String
  params : List Param
  ret : Ty
  body : Block
  isPublic : Bool
  isStatic : Bool
  nameSpan : Span
  span : Span
deriving Inhabited

/-- The type of the function as a value (`FnDecl::signature`). -/
def FunctionDecl.signature (f : FunctionDecl) : Ty :=
  .fn (f.params.map (·.ty)) f.ret

/-- A field of a class. -/
structure FieldDecl where
  name : String
  ty : Ty
  initial : Option Expr
  isPublic : Bool
  isStatic : Bool
  span : Span

/-- A class. -/
structure ClassDecl where
  name : String
  fields : List FieldDecl
  methods : List FunctionDecl
  isPublic : Bool
  nameSpan : Span
  span : Span
deriving Inhabited

/-- A member of a class. -/
inductive Member where
  | field (decl : FieldDecl)
  | method (decl : FunctionDecl)

namespace Member

/-- The member may be used in other modules. -/
def isPublic : Member → Bool
  | field f => f.isPublic
  | method m => m.isPublic

/-- The member belongs to the class and not to its instances. -/
def isStatic : Member → Bool
  | field f => f.isStatic
  | method m => m.isStatic

/-- The type of the member as a value. -/
def ty : Member → Ty
  | field f => f.ty
  | method m => m.signature

end Member

/-- The member of that name (`ClassDecl::member`). Fields come before methods. -/
def ClassDecl.member? (c : ClassDecl) (name : String) : Option Member :=
  match c.fields.find? (·.name == name) with
  | some f => some (.field f)
  | none => (c.methods.find? (·.name == name)).map .method

/-- What a source text declares, each kind in source order (`Program`). -/
structure Declarations where
  usings : List Using := []
  functions : List FunctionDecl := []
  classes : List ClassDecl := []
deriving Inhabited

namespace Declarations

/-- The place of the first function of that name (`Program::find_function`). -/
def functionIdx? (d : Declarations) (name : String) : Option Nat :=
  d.functions.findIdx? (·.name == name)

/-- The place of the first class of that name (`Program::find_class`). -/
def classIdx? (d : Declarations) (name : String) : Option Nat :=
  d.classes.findIdx? (·.name == name)

end Declarations

end MgLang
