import MgLang.Syntax.Decl
/-!
# Trees without places

`Expr.bare` and its companions forget the numbers of expressions and the places of everything, and
keep the rest. Two source texts say the same when their declarations are equal after that.
-/

namespace MgLang

/-- What stands in place of a number and a span. -/
def Node.null : Node := ⟨0, .null⟩

/-- The parameter, standing nowhere. -/
def Param.bare (p : Param) : Param := { p with span := .null }

/-- The pattern, standing nowhere. -/
def ArmPattern.bare : ArmPattern → ArmPattern
  | .some binding _ => .some binding .null
  | .none => .none
  | .wildcard => .wildcard

mutual

/-- The expression without numbers and places. -/
def Expr.bare : Expr → Expr
  | .int _ value => .int .null value
  | .float _ numeral => .float .null numeral
  | .string _ value => .string .null value
  | .bool _ value => .bool .null value
  | .interpolated _ parts => .interpolated .null (bareParts parts)
  | .ident _ name => .ident .null name
  | .this _ => .this .null
  | .noneLit _ => .noneLit .null
  | .someOf _ inner => .someOf .null inner.bare
  | .binary _ op left right => .binary .null op left.bare right.bare
  | .unary _ op operand => .unary .null op operand.bare
  | .assign _ target value => .assign .null target.bare value.bare
  | .call _ callee args => .call .null callee.bare (bareExprs args)
  | .member _ object name _ => .member .null object.bare name .null
  | .index _ object index => .index .null object.bare index.bare
  | .new _ className _ args => .new .null className .null (bareExprs args)
  | .array _ items => .array .null (bareExprs items)
  | .lambda _ params ret body => .lambda .null (params.map Param.bare) ret body.bare

/-- The expressions without their places. -/
def bareExprs : List Expr → List Expr
  | [] => []
  | e :: es => e.bare :: bareExprs es

/-- The pieces of an interpolated string without their places. -/
def bareParts : List Part → List Part
  | [] => []
  | .text value :: parts => .text value :: bareParts parts
  | .hole e :: parts => .hole e.bare :: bareParts parts

/-- The statement without its places. -/
def Stmt.bare : Stmt → Stmt
  | .letStmt name mutable ty value _ _ => .letStmt name mutable ty value.bare .null .null
  | .returnStmt none _ => .returnStmt none .null
  | .returnStmt (some value) _ => .returnStmt (some value.bare) .null
  | .ifStmt condition body none _ => .ifStmt condition.bare body.bare none .null
  | .ifStmt condition body (some otherwise) _ =>
    .ifStmt condition.bare body.bare (some otherwise.bare) .null
  | .whileStmt condition body _ => .whileStmt condition.bare body.bare .null
  | .forStmt name _ iterable body _ => .forStmt name .null iterable.bare body.bare .null
  | .matchStmt scrutinee arms _ => .matchStmt scrutinee.bare (bareArms arms) .null
  | .block body => .block body.bare
  | .expr value => .expr value.bare

/-- The statements without their places. -/
def bareStmts : List Stmt → List Stmt
  | [] => []
  | stmt :: stmts => stmt.bare :: bareStmts stmts

/-- The block without its places. -/
def Block.bare : Block → Block
  | ⟨stmts, _⟩ => ⟨bareStmts stmts, .null⟩

/-- The arms without their places. -/
def bareArms : List Arm → List Arm
  | [] => []
  | ⟨pattern, body, _⟩ :: arms => ⟨pattern.bare, body.bare, .null⟩ :: bareArms arms

end

/-- The function without its places. -/
def FunctionDecl.bare (f : FunctionDecl) : FunctionDecl :=
  { f with
    params := f.params.map Param.bare
    body := f.body.bare
    nameSpan := .null
    span := .null }

/-- The field without its places. -/
def FieldDecl.bare (f : FieldDecl) : FieldDecl :=
  { f with initial := f.initial.map Expr.bare, span := .null }

/-- The class without its places. -/
def ClassDecl.bare (c : ClassDecl) : ClassDecl :=
  { c with
    fields := c.fields.map FieldDecl.bare
    methods := c.methods.map FunctionDecl.bare
    nameSpan := .null
    span := .null }

/-- The import without its place. -/
def Using.bare (u : Using) : Using := { u with span := .null }

/-- The declarations without their places. -/
def Declarations.bare (d : Declarations) : Declarations :=
  ⟨d.usings.map Using.bare, d.functions.map FunctionDecl.bare, d.classes.map ClassDecl.bare⟩

end MgLang
