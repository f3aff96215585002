import MgLang.Typing.Checker
/-!
# Checking types

Every expression of a module gets a type, and what does not fit is reported. The check follows the
source, classes before functions, with the operands of an expression before the expression itself.
It never stops: where a fault leaves no type, the type is unknown, and fits everywhere.

`checkExpr` and its companions are the check of one piece of the tree; `Registry.check` is the check
of a module. `checkExpr` has a case for each of `compute_expr_type`, with `check_call` and
`check_member` spelt out there; what a case does once it has the types of the operands is a step
such as `Check.binaryTy` or `CheckContext.valueMemberTy`.
-/

namespace MgLang

/-- The number and span of an expression, with its type. -/
def Expr.typed (e : Expr) (ty : Ty) : TypedNode :=
  ⟨e.node, ty⟩

mutual

/-- Finds the type of an expression and records it (`check_expr` with `compute_expr_type`). -/
def checkExpr (cx : CheckContext) : Expr → Check Ty
  | .int node _ => do
    Check.record node .int
    return .int
  | .float node _ => do
    Check.record node .float
    return .float
  | .string node _ => do
    Check.record node .string
    return .string
  | .bool node _ => do
    Check.record node .bool
    return .bool
  | .noneLit node => do
    Check.record node (.option .unknown)
    return .option .unknown
  | .this node => do
    let ty := ((← get).enclosing.map Ty.named).getD .unknown
    Check.record node ty
    return ty
  | .ident node name => do
    let ty ← cx.identTy node.id name
    Check.record node ty
    return ty
  | .interpolated node parts => do
    checkParts cx parts
    Check.record node .string
    return .string
  | .someOf node inner => do
    let ty := Ty.option (← checkExpr cx inner)
    Check.record node ty
    return ty
  | .binary node op left right => do
    let leftTy ← checkExpr cx left
    let rightTy ← checkExpr cx right
    let ty ← Check.binaryTy op (left.typed leftTy) (right.typed rightTy) node.span
    Check.record node ty
    return ty
  | .unary node op operand => do
    let operandTy ← checkExpr cx operand
    let ty ← Check.unaryTy op (operand.typed operandTy)
    Check.record node ty
    return ty
  | .assign node target value => do
    let targetTy ← checkExpr cx target
    let valueTy ← checkExpr cx value
    Check.expectAssignable valueTy targetTy value.span
    Check.record node targetTy
    return targetTy
  | .call node callee args => do
    let ty ←
      match cx.names.intrinsic? callee with
      | some name => do
        Check.record callee.node .unknown
        checkArgs cx [] args
        pure (if name = "readLine" then .string else .void)
      | none => do
        match ← checkExpr cx callee with
        | .fn params ret => do
          unless params.length = args.length do
            Check.report (.arityMismatch callee.calleeName params.length args.length) node.span
          checkArgs cx params args
          pure ret
        | .unknown => do
          checkArgs cx [] args
          pure .unknown
        | other => do
          checkArgs cx [] args
          Check.report (.typeMismatch "function" other.text) callee.span
          pure .unknown
    Check.record node ty
    return ty
  | .member node object name nameSpan => do
    let ty ←
      if cx.names.isBuiltin object then do
        Check.record object.node .unknown
        pure .unknown
      else
        match cx.names.aliased? object with
        | some path => do
          Check.record object.node .unknown
          cx.moduleMemberTy path name nameSpan
        | none => do
          let objectTy ← checkExpr cx object
          cx.valueMemberTy objectTy name (cx.names.isClass cx.registry object) nameSpan
    Check.record node ty
    return ty
  | .index node object index => do
    let objectTy ← checkExpr cx object
    let indexTy ← checkExpr cx index
    Check.expectAssignable indexTy .int index.span
    let ty ← Check.indexedTy (object.typed objectTy)
    Check.record node ty
    return ty
  | .new node className classSpan args => do
    checkArgs cx [] args
    let ty ← cx.instanceTy className classSpan
    Check.record node ty
    return ty
  | .array node items => do
    let ty := Ty.array (← checkItems cx .unknown items)
    Check.record node ty
    return ty
  | .lambda node params ret body => do
    Check.returning ret (Check.inScope do
      cx.declareParams params
      checkBlock cx body)
    let ty := Ty.fn (params.map (·.ty)) ret
    Check.record node ty
    return ty

/-- Checks arguments against the types of parameters, as far as there are any (the end of
`check_call`, and `check_args` where no types are known). -/
def checkArgs (cx : CheckContext) : List Ty → List Expr → Check Unit
  | _, [] => pure ()
  | [], arg :: args => do
    discard (checkExpr cx arg)
    checkArgs cx [] args
  | param :: params, arg :: args => do
    let ty ← checkExpr cx arg
    Check.expectAssignable ty param arg.span
    checkArgs cx params args

/-- The type that fits all elements of an array, if those before them fit `common`. -/
def checkItems (cx : CheckContext) (common : Ty) : List Expr → Check Ty
  | [] => pure common
  | item :: items => do
    let ty ← checkExpr cx item
    checkItems cx (← Check.joinElement common (item.typed ty)) items

/-- Checks the holes of an interpolated string. -/
def checkParts (cx : CheckContext) : List Part → Check Unit
  | [] => pure ()
  | .text _ :: parts => checkParts cx parts
  | .hole e :: parts => do
    discard (checkExpr cx e)
    checkParts cx parts

/-- Checks a statement (`check_stmt`). -/
def checkStmt (cx : CheckContext) : Stmt → Check Unit
  | .letStmt name _ none value _ _ => do
    Check.declare name (← checkExpr cx value)
  | .letStmt name _ (some ty) value nameSpan _ => do
    let valueTy ← checkExpr cx value
    cx.checkAnnotation ty nameSpan
    Check.expectAssignable valueTy ty value.span
    Check.declare name ty
  | .returnStmt none span => do
    if let some expected := (← get).expected then
      Check.expectAssignable .void expected span
  | .returnStmt (some value) _ => do
    let ty ← checkExpr cx value
    if let some expected := (← get).expected then
      Check.expectAssignable ty expected value.span
  | .ifStmt condition body none _ => do
    Check.expectAssignable (← checkExpr cx condition) .bool condition.span
    checkBlock cx body
  | .ifStmt condition body (some otherwise) _ => do
    Check.expectAssignable (← checkExpr cx condition) .bool condition.span
    checkBlock cx body
    checkStmt cx otherwise
  | .whileStmt condition body _ => do
    Check.expectAssignable (← checkExpr cx condition) .bool condition.span
    checkBlock cx body
  | .forStmt name _ iterable body _ => do
    let ty ← checkExpr cx iterable
    let element ← Check.elementTy (iterable.typed ty)
    Check.inScope do
      Check.declare name element
      checkBlock cx body
  | .matchStmt scrutinee arms _ => do
    checkArms cx (← checkExpr cx scrutinee) arms
  | .block body => checkBlock cx body
  | .expr value => discard (checkExpr cx value)

/-- Checks statements, one after the other. -/
def checkStmts (cx : CheckContext) : List Stmt → Check Unit
  | [] => pure ()
  | stmt :: stmts => do
    checkStmt cx stmt
    checkStmts cx stmts

/-- Checks a block, in a scope of its own (`check_block`). -/
def checkBlock (cx : CheckContext) : Block → Check Unit
  | ⟨stmts, _⟩ => Check.inScope (checkStmts cx stmts)

/-- Checks arms, each in a scope that holds the name of its pattern. -/
def checkArms (cx : CheckContext) (scrutinee : Ty) : List Arm → Check Unit
  | [] => pure ()
  | ⟨pattern, body, span⟩ :: arms => do
    Check.inScope do
      Check.declarePattern scrutinee pattern span
      checkBlock cx body
    checkArms cx scrutinee arms

end

/-- Checks a function or method (`check_function`). -/
def checkFunction (cx : CheckContext) (f : FunctionDecl) : Check Unit :=
  Check.returning f.ret do
    cx.checkAnnotation f.ret f.nameSpan
    Check.inScope do
      cx.declareParams f.params
      checkBlock cx f.body

/-- Checks the field of a class. -/
def checkField (cx : CheckContext) (f : FieldDecl) : Check Unit := do
  cx.checkAnnotation f.ty f.span
  match f.initial with
  | none => pure ()
  | some value => Check.expectAssignable (← checkExpr cx value) f.ty value.span

/-- Checks a class: its fields, then its methods (`check_class`). -/
def checkClass (cx : CheckContext) (c : ClassDecl) : Check Unit :=
  Check.inClass c.name do
    c.fields.forM (checkField cx)
    c.methods.forM (checkFunction cx)

/-- Checks what a module declares: its classes, then its functions. -/
def checkModule (cx : CheckContext) : Check Unit :=
  Check.inScope do
    cx.module.decls.classes.forM (checkClass cx)
    cx.module.decls.functions.forM (checkFunction cx)

/-- What a type check found out (`TypeCheckResult`). -/
structure Types where
  /-- The faults, in the order in which they were met. -/
  errors : List Diagnostic := []
  /-- The types of expressions, in the order in which they were found. -/
  nodes : List TypedNode := []

namespace Types

/-- The type of the expression with that number (`TypeCheckResult::type_of`). -/
def typeOf? (t : Types) (node : Nat) : Option Ty :=
  (t.nodes.find? (·.node.id == node)).map (·.ty)

/-- The types of expressions in the order of the expressions' numbers. -/
def rows (t : Types) : List TypedNode :=
  t.nodes.mergeSort fun a b => a.node.id ≤ b.node.id

end Types

/-- Checks the types of the module whose names are given (`check_module`). -/
def Registry.check (r : Registry) (names : Names) : Types :=
  match r.find? names.module with
  | none => {}
  | some m =>
    let done := ((checkModule ⟨r, names, m⟩).run {}).2
    { errors := done.errors.toList, nodes := done.types.toList }

end MgLang
