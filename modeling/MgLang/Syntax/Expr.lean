import MgLang.Source.Span
import MgLang.Syntax.Ty
/-!
# Expressions and statements

The tree of a function body. Every expression carries a `Node`: the span of its text, and a number
by which later analyses attach facts to it (`NodeId`). No two expressions of a compilation have the
same number. The numbers here are exact; they are kept in words of 32 bits (`Expr.word`).
-/

namespace MgLang

/-- What every expression carries. -/
structure Node where
  /-- The number of the expression. -/
  id : Nat
  /-- The text of the expression. -/
  span : Span
deriving DecidableEq, Repr

/-- A parameter of a function. -/
structure Param where
  name : String
  ty : Ty
  span : Span
deriving DecidableEq, Repr

/-- The operators between two operands. -/
inductive BinaryOp where
  | add | sub | mul | div | mod
  | eq | notEq | less | lessEq | greater | greaterEq
  | and | or
deriving DecidableEq, Repr

namespace BinaryOp

/-- The operator as it is written. -/
def symbol : BinaryOp → String
  | add => "+"
  | sub => "-"
  | mul => "*"
  | div => "/"
  | mod => "%"
  | eq => "=="
  | notEq => "!="
  | less => "<"
  | lessEq => "<="
  | greater => ">"
  | greaterEq => ">="
  | and => "&&"
  | or => "||"

/-- The operators on truth values. -/
def isLogical : BinaryOp → Bool
  | and | or => true
  | _ => false

/-- The operators that compare. -/
def isComparison : BinaryOp → Bool
  | eq | notEq | less | lessEq | greater | greaterEq => true
  | _ => false

end BinaryOp

/-- The operators before one operand. -/
inductive UnaryOp where
  | negate | not
deriving DecidableEq, Repr

/-- What an arm of a `match` accepts (`Pattern`). -/
inductive ArmPattern where
  /-- A present value, which gets a name. -/
  | some (binding : String) (span : Span)
  /-- The absent value. -/
  | none
  /-- Everything. -/
  | wildcard
deriving DecidableEq, Repr

mutual

/-- An expression (`ExprKind`). -/
inductive Expr where
  | int (node : Node) (value : Nat)
  /-- A fractional numeral, kept as it was written. -/
  | float (node : Node) (numeral : String)
  | string (node : Node) (value : String)
  | bool (node : Node) (value : Bool)
  /-- Text with expressions in it. -/
  | interpolated (node : Node) (parts : List Part)
  | ident (node : Node) (name : String)
  | this (node : Node)
  | noneLit (node : Node)
  | someOf (node : Node) (inner : Expr)
  | binary (node : Node) (op : BinaryOp) (left right : Expr)
  | unary (node : Node) (op : UnaryOp) (operand : Expr)
  | assign (node : Node) (target value : Expr)
  | call (node : Node) (callee : Expr) (args : List Expr)
  | member (node : Node) (object : Expr) (name : String) (nameSpan : Span)
  | index (node : Node) (object index : Expr)
  | new (node : Node) (className : String) (classSpan : Span) (args : List Expr)
  | array (node : Node) (items : List Expr)
  | lambda (node : Node) (params : List Param) (ret : Ty) (body : Block)

/-- A piece of an interpolated string (`InterpolationPart`). -/
inductive Part where
  | text (value : String)
  | hole (value : Expr)

/-- A statement. -/
inductive Stmt where
  | letStmt (name : String) (mutable : Bool) (ty : Option Ty) (value : Expr)
    (nameSpan span : Span)
  | returnStmt (value : Option Expr) (span : Span)
  /-- A branch. What is done otherwise is a block or another branch. -/
  | ifStmt (condition : Expr) (body : Block) (otherwise : Option Stmt) (span : Span)
  | whileStmt (condition : Expr) (body : Block) (span : Span)
  | forStmt (name : String) (nameSpan : Span) (iterable : Expr) (body : Block)
    (span : Span)
  | matchStmt (scrutinee : Expr) (arms : List Arm) (span : Span)
  | block (body : Block)
  | expr (value : Expr)

/-- Statements between braces. -/
structure Block where
  stmts : List Stmt
  span : Span

/-- An arm of a `match` (`MatchArm`). -/
structure Arm where
  pattern : ArmPattern
  body : Block
  span : Span

end

namespace Expr

/-- The number and span of an expression. -/
def node : Expr → Node
  | int n _ | float n _ | string n _ | bool n _ | interpolated n _ | ident n _ | this n
  | noneLit n | someOf n _ | binary n _ _ _ | unary n _ _ | assign n _ _ | call n _ _
  | member n _ _ _ | index n _ _ | new n _ _ _ | array n _ | lambda n _ _ _ => n

/-- The number of an expression. -/
def id (e : Expr) : Nat := e.node.id

/-- The text of an expression. -/
def span (e : Expr) : Span := e.node.span

/-- How a call of the expression is named in messages (`Expr::callee_name`). -/
def calleeName : Expr → String
  | ident _ name => name
  | member _ _ name _ => name
  | _ => "<expression>"

end Expr

instance : Inhabited Expr := ⟨.this ⟨0, .null⟩⟩

instance : Inhabited Block := ⟨⟨[], .null⟩⟩

/-- The text of a statement (`Stmt::span`). -/
def Stmt.span : Stmt → Span
  | .letStmt _ _ _ _ _ s | .returnStmt _ s | .ifStmt _ _ _ s | .whileStmt _ _ s
  | .forStmt _ _ _ _ s | .matchStmt _ _ s => s
  | .block b => b.span
  | .expr e => e.span

end MgLang
