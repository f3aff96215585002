import MgLang.Proofs.Within
import MgLang.Typing.Check
import Mathlib.Data.List.Forall2
/-!
# The typing rules

What has to hold in a module for a table of types to be in order, said without any run over the
module: a rule for each expression of `Module.exprs`, for each statement of `Module.statements`, and
for what the functions and fields declare. The types of expressions are read off the table.

The rules are met exactly where the check of the module reports nothing; that is the subject of the
module on silence.
-/

namespace MgLang

/-- What typing rules are read off: what names mean, and the types of expressions. -/
structure Typing where
  cx : CheckContext
  types : Types

namespace Typing

/-- The type of an expression. -/
def ty (ρ : Typing) (e : Expr) : Ty :=
  (ρ.types.typeOf? e.id).getD .unknown

/-- Every class that a declared type names is known. -/
def Known (ρ : Typing) (ty : Ty) : Prop :=
  ∀ name ∈ ty.classNames, (ρ.cx.class? name).isSome

end Typing

/-! ### Rules on types alone -/

/-- The type of an optional value, or an unknown one. -/
def Ty.IsOptional (ty : Ty) : Prop :=
  ty = .unknown ∨ ∃ inner, ty = .option inner

/-- The type of something that has elements, or an unknown one. -/
def Ty.IsIterable (ty : Ty) : Prop :=
  ty = .unknown ∨ ∃ inner, ty = .array inner

/-- Operands of these types go with the operator. -/
def BinaryOp.Fits (op : BinaryOp) (left right : Ty) : Prop :=
  if op.isLogical then left.isAssignable .bool ∧ right.isAssignable .bool
  else
    ∃ common, left.common? right = some common ∧
      (op.isComparison ∨ common.isNumeric ∨ common = .string ∧ op = .add)

/-- An operand of this type goes with the operator. -/
def UnaryOp.Fits (op : UnaryOp) (operand : Ty) : Prop :=
  match op with
  | .negate => operand.isNumeric
  | .not => operand.isAssignable .bool

namespace CheckContext

/-- Another module, reached by its short name, has a member that may be used. -/
def OffersMember (cx : CheckContext) (path name : String) : Prop :=
  ∀ m, cx.registry.find? path = some m →
    ∃ symbol, m.symbol? name = some symbol ∧ cx.mayUse symbol.isPublic m

/-- A class is known and may be used. -/
def OffersClass (cx : CheckContext) (className : String) : Prop :=
  ∃ owner decl, cx.class? className = some (owner, decl) ∧ cx.mayUse decl.isPublic owner

/-- A value has a member that may be used. What is taken from a class itself has to be static. -/
def HasMember (cx : CheckContext) (receiver : Ty) (name : String) (fromClass : Bool) : Prop :=
  match receiver with
  | .named className =>
    ∃ owner decl member, cx.class? className = some (owner, decl) ∧
      decl.member? name = some member ∧ (fromClass → member.isStatic) ∧
      cx.mayUse member.isPublic owner
  | .unknown => True
  | other => (other.builtinMember? name).isSome

end CheckContext

/-! ### Rules on expressions and statements -/

/-- What has that type can be called with the arguments: it is unknown, or a function with as many
parameters as there are arguments, each of which can be stored in its parameter. -/
def Typing.Accepts (ρ : Typing) (callee : Ty) (args : List Expr) : Prop :=
  callee = .unknown ∨ ∃ params ret, callee = .fn params ret ∧
    List.Forall₂ (fun arg param => (ρ.ty arg).isAssignable param = true) args params

/-- A call is in order. An intrinsic can be called with any arguments. -/
def Typing.CallFits (ρ : Typing) (callee : Expr) (args : List Expr) : Prop :=
  (ρ.cx.names.intrinsic? callee).isSome ∨ ρ.Accepts (ρ.ty callee) args

theorem Typing.accepts_fn (ρ : Typing) (params : List Ty) (ret : Ty) (args : List Expr) :
    ρ.Accepts (.fn params ret) args ↔
      List.Forall₂ (fun arg param => (ρ.ty arg).isAssignable param = true) args params := by
  unfold Typing.Accepts
  refine ⟨?_, fun h => .inr ⟨params, ret, rfl, h⟩⟩
  rintro (h | ⟨params', ret', h, ha⟩)
  · cases h
  · cases h
    exact ha

/-- The expression is in order, if those inside it are. -/
def Expr.Fits (ρ : Typing) : Expr → Prop
  | .int _ _ | .float _ _ | .string _ _ | .bool _ _ | .interpolated _ _ | .ident _ _ | .this _
  | .noneLit _ | .someOf _ _ => True
  | .binary _ op left right => op.Fits (ρ.ty left) (ρ.ty right)
  | .unary _ op operand => op.Fits (ρ.ty operand)
  | .assign _ target value => (ρ.ty value).isAssignable (ρ.ty target)
  | .call _ callee args => ρ.CallFits callee args
  | .member _ object name _ =>
    if ρ.cx.names.isBuiltin object then True
    else
      match ρ.cx.names.aliased? object with
      | some path => ρ.cx.OffersMember path name
      | none =>
        ρ.cx.HasMember (ρ.ty object) name (ρ.cx.names.isClass ρ.cx.registry object)
  | .index _ object place =>
    (ρ.ty place).isAssignable .int ∧ (ρ.ty object = .string ∨ (ρ.ty object).IsIterable)
  | .new _ className _ _ => ρ.cx.OffersClass className
  -- Every element has a type in common with those before it.
  | .array _ items => ((items.map ρ.ty).foldlM Ty.common? .unknown).isSome
  -- The type that an anonymous function returns is not looked at.
  | .lambda _ params _ _ => ∀ p ∈ params, ρ.Known p.ty

/-- The statement is in order in a function that is to return `ret`, if the expressions and
statements inside it are. -/
def Stmt.Fits (ρ : Typing) (ret : Ty) : Stmt → Prop
  | .letStmt _ _ none _ _ _ => True
  | .letStmt _ _ (some ty) value _ _ => ρ.Known ty ∧ (ρ.ty value).isAssignable ty
  | .returnStmt none _ => Ty.isAssignable .void ret
  | .returnStmt (some value) _ => (ρ.ty value).isAssignable ret
  | .ifStmt condition _ _ _ | .whileStmt condition _ _ => (ρ.ty condition).isAssignable .bool
  | .forStmt _ _ iterable _ _ => (ρ.ty iterable).IsIterable
  | .matchStmt scrutinee arms _ =>
    ∀ arm ∈ arms, arm.pattern ≠ .wildcard → (ρ.ty scrutinee).IsOptional
  | .block _ | .expr _ => True

/-- What a function declares is in order. -/
def FunctionDecl.Fits (ρ : Typing) (f : FunctionDecl) : Prop :=
  ρ.Known f.ret ∧ ∀ p ∈ f.params, ρ.Known p.ty

/-- What a field declares is in order, and its initial value can be stored in it. -/
def FieldDecl.Fits (ρ : Typing) (f : FieldDecl) : Prop :=
  ρ.Known f.ty ∧ ∀ value ∈ f.initial, (ρ.ty value).isAssignable f.ty

/-! ### The statements of a module -/

mutual

/-- The statements within an expression, which stand in anonymous functions, each with the type that
its innermost function is to return. -/
def Expr.statements : Expr → List (Ty × Stmt)
  | .int _ _ | .float _ _ | .string _ _ | .bool _ _ | .ident _ _ | .this _ | .noneLit _ => []
  | .interpolated _ parts => partsStatements parts
  | .someOf _ inner => inner.statements
  | .binary _ _ left right => left.statements ++ right.statements
  | .unary _ _ operand => operand.statements
  | .assign _ target value => target.statements ++ value.statements
  | .call _ callee args => callee.statements ++ exprsStatements args
  | .member _ object _ _ => object.statements
  | .index _ object place => object.statements ++ place.statements
  | .new _ _ _ args => exprsStatements args
  | .array _ items => exprsStatements items
  | .lambda _ _ ret body => body.statements ret

/-- The statements within expressions. -/
def exprsStatements : List Expr → List (Ty × Stmt)
  | [] => []
  | e :: es => e.statements ++ exprsStatements es

/-- The statements within the holes of an interpolated string. -/
def partsStatements : List Part → List (Ty × Stmt)
  | [] => []
  | .text _ :: parts => partsStatements parts
  | .hole e :: parts => e.statements ++ partsStatements parts

/-- The statements within a statement of a function that is to return `ret`. It is the last of them
itself. -/
def Stmt.statements (ret : Ty) (stmt : Stmt) : List (Ty × Stmt) :=
  (match stmt with
    | .letStmt _ _ _ value _ _ => value.statements
    | .returnStmt none _ => []
    | .returnStmt (some value) _ => value.statements
    | .ifStmt condition body none _ => condition.statements ++ body.statements ret
    | .ifStmt condition body (some otherwise) _ =>
      condition.statements ++ body.statements ret ++ otherwise.statements ret
    | .whileStmt condition body _ => condition.statements ++ body.statements ret
    | .forStmt _ _ iterable body _ => iterable.statements ++ body.statements ret
    | .matchStmt scrutinee arms _ => scrutinee.statements ++ armsStatements ret arms
    | .block body => body.statements ret
    | .expr value => value.statements) ++ [(ret, stmt)]

/-- The statements within statements. -/
def stmtsStatements (ret : Ty) : List Stmt → List (Ty × Stmt)
  | [] => []
  | stmt :: stmts => stmt.statements ret ++ stmtsStatements ret stmts

/-- The statements within a block. -/
def Block.statements (ret : Ty) : Block → List (Ty × Stmt)
  | ⟨stmts, _⟩ => stmtsStatements ret stmts

/-- The statements within the arms of a `match`. -/
def armsStatements (ret : Ty) : List Arm → List (Ty × Stmt)
  | [] => []
  | ⟨_, body, _⟩ :: arms => body.statements ret ++ armsStatements ret arms

end

/-- The statements within a function. -/
def FunctionDecl.statements (f : FunctionDecl) : List (Ty × Stmt) :=
  f.body.statements f.ret

/-- The statements within a class. -/
def ClassDecl.statements (c : ClassDecl) : List (Ty × Stmt) :=
  exprsStatements c.initials ++ c.methods.flatMap FunctionDecl.statements

namespace Module

/-- Every statement of a module, with the type that its innermost function is to return. -/
def statements (m : Module) : List (Ty × Stmt) :=
  m.decls.classes.flatMap ClassDecl.statements ++ m.decls.functions.flatMap FunctionDecl.statements

/-- The functions of a module and the methods of its classes. -/
def callables (m : Module) : List FunctionDecl :=
  m.decls.classes.flatMap (·.methods) ++ m.decls.functions

/-- The fields of the classes of a module. -/
def fields (m : Module) : List FieldDecl :=
  m.decls.classes.flatMap (·.fields)

/-- The typing rules are met everywhere in a module. -/
structure Obeys (m : Module) (ρ : Typing) : Prop where
  exprs : ∀ e ∈ m.exprs, e.Fits ρ
  statements : ∀ s ∈ m.statements, s.2.Fits ρ s.1
  callables : ∀ f ∈ m.callables, f.Fits ρ
  fields : ∀ f ∈ m.fields, f.Fits ρ

end Module

end MgLang
