import MgLang.Grammar.Power
import MgLang.Syntax.Decl
import MgLang.Text.Split
import MgLang.Token.Pattern
/-!
# Printing declarations

`Declarations.print` is the row of lexemes that says what a list of declarations says: imports, then
functions, then classes, each with all of its marks. An expression stands in parentheses exactly
where its operator binds more weakly than the place of the expression asks for. The left operand of
an operator must bind as strongly as the operator, the right operand more strongly, the target of an
assignment more strongly than an assignment, its value as strongly, the operand of a sign at least
as strongly as a sign, and what is called, indexed or asked for a member as strongly as a call.

A place between brackets, or before a semicolon or a brace, asks for nothing.
-/

namespace MgLang

/-! ### Lexemes -/

/-- What the grammar sees of a token. -/
structure Lexeme where
  kind : TokenKind
  value : String
deriving DecidableEq, Repr

/-- The token without its place. -/
def Token.lexeme (t : Token) : Lexeme := ⟨t.kind, t.value⟩

/-- How a mark or a reserved word is spelled. The other kinds have no spelling of their own. -/
def TokenKind.spelling (k : TokenKind) : String :=
  let mark? : Pattern → Option String
    | .mark kind text => if kind = k then some (.ofList text) else none
    | _ => none
  let word? := (keywords.find? fun e => e.2 = k).map (·.1)
  ((Pattern.all.findSome? mark?).or word?).getD ""

namespace Lexeme

/-- A mark or a reserved word. -/
def fixed (k : TokenKind) : Lexeme := ⟨k, k.spelling⟩

/-- A name. -/
def name (value : String) : Lexeme := ⟨.identifier, value⟩

/-- Rows of lexemes with commas between them. -/
def separated : List (List Lexeme) → List Lexeme
  | [] => []
  | [row] => row
  | row :: rows => row ++ fixed .comma :: separated rows

theorem separated_cons_cons (row row' : List Lexeme) (rows : List (List Lexeme)) :
    separated (row :: row' :: rows) = row ++ fixed .comma :: separated (row' :: rows) := rfl

/-- A row of lexemes, in parentheses if `p` holds. -/
def enclosed (p : Prop) [Decidable p] (row : List Lexeme) : List Lexeme :=
  if p then fixed .openParen :: row ++ [fixed .closeParen] else row

end Lexeme

open Lexeme (separated enclosed)

/-! ### Types -/

mutual

/-- The type as it is written. An array is written with its wrapper, and the return type of a
function is never left out. -/
def Ty.print : Ty → List Lexeme
  | .int => [.fixed .intType]
  | .float => [.fixed .floatType]
  | .string => [.fixed .stringType]
  | .bool => [.fixed .boolType]
  | .void => [.fixed .voidType]
  | .fn params ret =>
    .fixed .kwFn :: .fixed .openParen :: separated (printTys params) ++
      .fixed .closeParen :: .fixed .arrow :: ret.print
  | .named name => [.name name]
  | .option inner => .name "Option" :: .fixed .less :: inner.print ++ [.fixed .greater]
  | .array inner => .name "Array" :: .fixed .less :: inner.print ++ [.fixed .greater]
  | .unknown => []

/-- The types of a list as they are written. -/
def printTys : List Ty → List (List Lexeme)
  | [] => []
  | ty :: tys => ty.print :: printTys tys

end

/-- The parameter as it is written. -/
def Param.print (p : Param) : List Lexeme :=
  .name p.name :: .fixed .colon :: p.ty.print

/-- Parameters and return type as they are written. -/
def printSignature (params : List Param) (ret : Ty) : List Lexeme :=
  .fixed .openParen :: separated (params.map Param.print) ++
    .fixed .closeParen :: .fixed .arrow :: ret.print

/-! ### Operators -/

/-- The token that the operator is written with. -/
def BinaryOp.kind : BinaryOp → TokenKind
  | .add => .plus
  | .sub => .dash
  | .mul => .star
  | .div => .slash
  | .mod => .percent
  | .eq => .equals
  | .notEq => .notEquals
  | .less => .less
  | .lessEq => .lessEquals
  | .greater => .greater
  | .greaterEq => .greaterEquals
  | .and => .and
  | .or => .or

/-- The token that the operator is written with. -/
def UnaryOp.kind : UnaryOp → TokenKind
  | .negate => .dash
  | .not => .not

theorem BinaryOp.continuation?_kind (op : BinaryOp) :
    op.kind.continuation? = some (.binary op) := by
  cases op <;> rfl

/-- How strongly the outermost operator of the expression binds. -/
def Expr.level : Expr → Nat
  | .assign _ _ _ => Power.assignment.level
  | .binary _ op _ _ => op.power.level
  | .unary _ _ _ => Power.unary.level
  | .call _ _ _ | .index _ _ _ => Power.call.level
  | .member _ _ _ _ => Power.member.level
  | _ => Power.primary.level

/-! ### Expressions and statements -/

/-- The pattern of an arm as it is written. -/
def ArmPattern.print : ArmPattern → List Lexeme
  | .some binding _ =>
    [.fixed .kwSome, .fixed .openParen, .name binding, .fixed .closeParen]
  | .none => [.fixed .kwNone]
  | .wildcard => [.name "_"]

/-- What stands between the name of a variable and its value. -/
def printAnnotation : Option Ty → List Lexeme
  | none => []
  | some ty => .fixed .colon :: ty.print

mutual

/-- The expression as it is written. The text of an interpolated string is left out. -/
def Expr.print : Expr → List Lexeme
  | .int _ value => [⟨.int, toString value⟩]
  | .float _ numeral => [⟨.float, numeral⟩]
  | .string _ value => [⟨.string, value⟩]
  | .bool _ true => [.fixed .kwTrue]
  | .bool _ false => [.fixed .kwFalse]
  | .interpolated _ _ => [⟨.interpolated, ""⟩]
  | .ident _ name => [.name name]
  | .this _ => [.fixed .kwThis]
  | .noneLit _ => [.fixed .kwNone]
  | .someOf _ inner =>
    .fixed .kwSome :: .fixed .openParen :: inner.print ++ [.fixed .closeParen]
  | .binary _ op left right =>
    enclosed (left.level < op.power.level) left.print ++ .fixed op.kind ::
      enclosed (right.level < op.power.level + 1) right.print
  | .unary _ op operand =>
    .fixed op.kind :: enclosed (operand.level < Power.unary.level) operand.print
  | .assign _ target value =>
    enclosed (target.level < Power.assignment.level + 1) target.print ++ .fixed .assignment ::
      enclosed (value.level < Power.assignment.level) value.print
  | .call _ callee args =>
    enclosed (callee.level < Power.call.level) callee.print ++ .fixed .openParen ::
      separated (printExprs args) ++ [.fixed .closeParen]
  | .member _ object name _ =>
    enclosed (object.level < Power.call.level) object.print ++ [.fixed .dot, .name name]
  | .index _ object index =>
    enclosed (object.level < Power.call.level) object.print ++ .fixed .openBracket ::
      index.print ++ [.fixed .closeBracket]
  | .new _ className _ args =>
    .fixed .kwNew :: .name className :: .fixed .openParen :: separated (printExprs args) ++
      [.fixed .closeParen]
  | .array _ items =>
    .fixed .openBracket :: separated (printExprs items) ++ [.fixed .closeBracket]
  | .lambda _ params ret body => .fixed .kwFn :: printSignature params ret ++ body.print

/-- The expressions of a list as they are written. -/
def printExprs : List Expr → List (List Lexeme)
  | [] => []
  | e :: es => e.print :: printExprs es

/-- The statement as it is written. -/
def Stmt.print : Stmt → List Lexeme
  | .letStmt name mutable ty value _ _ =>
    .fixed .kwLet :: (if mutable then [.fixed .kwMut] else []) ++ .name name ::
      printAnnotation ty ++ .fixed .assignment :: value.print ++ [.fixed .semicolon]
  | .returnStmt none _ => [.fixed .kwReturn, .fixed .semicolon]
  | .returnStmt (some value) _ => .fixed .kwReturn :: value.print ++ [.fixed .semicolon]
  | .ifStmt condition body none _ => .fixed .kwIf :: condition.print ++ body.print
  | .ifStmt condition body (some otherwise) _ =>
    .fixed .kwIf :: condition.print ++ body.print ++ .fixed .kwElse :: otherwise.print
  | .whileStmt condition body _ => .fixed .kwWhile :: condition.print ++ body.print
  | .forStmt name _ iterable body _ =>
    .fixed .kwFor :: .fixed .openParen :: .name name :: .fixed .kwIn :: iterable.print ++
      .fixed .closeParen :: body.print
  | .matchStmt scrutinee arms _ =>
    .fixed .kwMatch :: scrutinee.print ++ .fixed .openCurly :: printArms arms ++
      [.fixed .closeCurly]
  | .block body => body.print
  | .expr value => value.print ++ [.fixed .semicolon]

/-- The statements as they are written. -/
def printStmts : List Stmt → List Lexeme
  | [] => []
  | stmt :: stmts => stmt.print ++ printStmts stmts

/-- The block as it is written. -/
def Block.print : Block → List Lexeme
  | ⟨stmts, _⟩ => .fixed .openCurly :: printStmts stmts ++ [.fixed .closeCurly]

/-- The arms as they are written. -/
def printArms : List Arm → List Lexeme
  | [] => []
  | ⟨pattern, body, _⟩ :: arms =>
    pattern.print ++ .fixed .fatArrow :: body.print ++ .fixed .comma :: printArms arms

end

/-- The expression as it is written where operators weaker than `min` need parentheses. -/
def Expr.printAt (e : Expr) (min : Nat) : List Lexeme :=
  enclosed (e.level < min) e.print

/-! ### Declarations -/

/-- The mark of visibility. -/
def printVisibility (isPublic : Bool) : Lexeme :=
  .fixed (if isPublic then .kwPub else .kwPriv)

/-- The marks before a declaration. -/
def printMarks (isPublic isStatic : Bool) : List Lexeme :=
  printVisibility isPublic :: if isStatic then [.fixed .kwStatic] else []

/-- The function as it is written. -/
def FunctionDecl.print (f : FunctionDecl) : List Lexeme :=
  printMarks f.isPublic f.isStatic ++ .fixed .kwFn :: .name f.name ::
    printSignature f.params f.ret ++ f.body.print

/-- What stands between the type of a field and the semicolon. -/
def printInitial : Option Expr → List Lexeme
  | none => []
  | some e => .fixed .assignment :: e.print

/-- The field as it is written. -/
def FieldDecl.print (f : FieldDecl) : List Lexeme :=
  printMarks f.isPublic f.isStatic ++ .name f.name :: .fixed .colon :: f.ty.print ++
    printInitial f.initial ++ [.fixed .semicolon]

/-- The class as it is written, fields first. -/
def ClassDecl.print (c : ClassDecl) : List Lexeme :=
  printVisibility c.isPublic :: .fixed .kwClass :: .name c.name :: .fixed .openCurly ::
    c.fields.flatMap FieldDecl.print ++ c.methods.flatMap FunctionDecl.print ++
      [.fixed .closeCurly]

/-- The segments of a path as they are written. -/
def printPath : List (List Char) → List Lexeme
  | [] => []
  | s :: ss => .name (.ofList s) :: ss.flatMap fun t => [.fixed .dot, .name (.ofList t)]

/-- The import as it is written. -/
def Using.print (u : Using) : List Lexeme :=
  .fixed .kwUsing :: printPath (splitOn '.' u.path.toList) ++ [.fixed .semicolon]

/-- The declarations as they are written: imports, then functions, then classes. -/
def Declarations.print (d : Declarations) : List Lexeme :=
  d.usings.flatMap Using.print ++ d.functions.flatMap FunctionDecl.print ++
    d.classes.flatMap ClassDecl.print

end MgLang
