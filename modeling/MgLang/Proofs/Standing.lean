import MgLang.Proofs.Locals
import MgLang.Proofs.Nesting
import MgLang.Proofs.Rules
/-!
# Where a check stands

A check of types knows the variables in sight, the type that the innermost function is to return,
and the class that it is in. It changes all three on its way and puts them back. The main statement
is `check_disciplined`: whatever piece of a tree is checked, from whatever state, the check ends
where it stood (`Checker.Restored`), up to the one variable that a `let` adds. So it comes to every
statement knowing the type that its own function is to return, and to every `this` knowing the class
around it (`Answers`).

`Expr.turns` and its companions list the statements that a check comes to, each with the state
there. The invariant along the check is `Turned`.
-/

namespace MgLang

open Check

/-! ### The statements that a check comes to -/

/-- A statement that a type check comes to. -/
structure Turn where
  stmt : Stmt
  /-- What the check knows when it starts with the statement. -/
  state : Checker

/-- The statement, with the type that the check holds to be the one to return. -/
def Turn.due (t : Turn) : Option Ty × Stmt :=
  (t.state.expected, t.stmt)

mutual

/-- The statements that the check of an expression comes to. -/
def Expr.turns (cx : CheckContext) (s : Checker) : Expr → List Turn
  | .int _ _ | .float _ _ | .string _ _ | .bool _ _ | .ident _ _ | .this _ | .noneLit _ => []
  | .interpolated _ parts => partsTurns cx s parts
  | .someOf _ inner => inner.turns cx s
  | .binary _ _ left right => left.turns cx s ++ right.turns cx ((checkExpr cx left).after s)
  | .unary _ _ operand => operand.turns cx s
  | .assign _ target value => target.turns cx s ++ value.turns cx ((checkExpr cx target).after s)
  | .call node callee args =>
    match cx.names.intrinsic? callee with
    | some _ => argsTurns cx [] ((record callee.node .unknown).after s) args
    | none =>
      let called := do
        CheckContext.expectCallable callee args.length node.span (← checkExpr cx callee)
      callee.turns cx s ++ argsTurns cx (called.result s) (called.after s) args
  | .member _ object _ _ =>
    if cx.names.isBuiltin object || (cx.names.aliased? object).isSome then []
    else object.turns cx s
  | .index _ object place => object.turns cx s ++ place.turns cx ((checkExpr cx object).after s)
  | .new _ _ _ args => argsTurns cx [] s args
  | .array _ items => itemsTurns cx .unknown s items
  | .lambda _ params ret body =>
    body.turns cx ((cx.declareParams params).after { s with expected := some ret }.push)

/-- The statements that the check of arguments comes to. -/
def argsTurns (cx : CheckContext) (params : List Ty) (s : Checker) : List Expr → List Turn
  | [] => []
  | arg :: args =>
    arg.turns cx s ++ argsTurns cx params.tail ((checkArgs cx params [arg]).after s) args

/-- The statements that the check of the elements of an array comes to. -/
def itemsTurns (cx : CheckContext) (common : Ty) (s : Checker) : List Expr → List Turn
  | [] => []
  | item :: items =>
    item.turns cx s ++
      itemsTurns cx ((checkItems cx common [item]).result s)
        ((checkItems cx common [item]).after s) items

/-- The statements that the check of the holes of an interpolated string comes to. -/
def partsTurns (cx : CheckContext) (s : Checker) : List Part → List Turn
  | [] => []
  | .text _ :: parts => partsTurns cx s parts
  | .hole e :: parts => e.turns cx s ++ partsTurns cx ((checkExpr cx e).after s) parts

/-- The statements that the check of a statement comes to. It is the last of them itself. -/
def Stmt.turns (cx : CheckContext) (s : Checker) (stmt : Stmt) : List Turn :=
  (match stmt with
    | .letStmt _ _ _ value _ _ => value.turns cx s
    | .returnStmt none _ => []
    | .returnStmt (some value) _ => value.turns cx s
    | .ifStmt condition body none _ | .whileStmt condition body _ =>
      condition.turns cx s ++ body.turns cx ((checkCondition cx condition).after s)
    | .ifStmt condition body (some otherwise) _ =>
      condition.turns cx s ++ body.turns cx ((checkCondition cx condition).after s) ++
        otherwise.turns cx ((checkBranch cx condition body).after s)
    | .forStmt name _ iterable body _ =>
      iterable.turns cx s ++
        body.turns cx ((declare name ((checkIterable cx iterable).result s)).after
          ((checkIterable cx iterable).after s).push)
    | .matchStmt scrutinee arms _ =>
      scrutinee.turns cx s ++
        armsTurns cx ((checkExpr cx scrutinee).result s) ((checkExpr cx scrutinee).after s) arms
    | .block body => body.turns cx s
    | .expr value => value.turns cx s) ++ [⟨stmt, s⟩]

/-- The statements that the check of statements comes to. -/
def stmtsTurns (cx : CheckContext) (s : Checker) : List Stmt → List Turn
  | [] => []
  | stmt :: stmts => stmt.turns cx s ++ stmtsTurns cx ((checkStmt cx stmt).after s) stmts

/-- The statements that the check of a block comes to. -/
def Block.turns (cx : CheckContext) (s : Checker) : Block → List Turn
  | ⟨stmts, _⟩ => stmtsTurns cx s.push stmts

/-- The statements that the check of the arms of a `match` comes to. -/
def armsTurns (cx : CheckContext) (scrutinee : Ty) (s : Checker) : List Arm → List Turn
  | [] => []
  | ⟨pattern, body, span⟩ :: arms =>
    body.turns cx ((declarePattern scrutinee pattern span).after s.push) ++
      armsTurns cx scrutinee ((checkArms cx scrutinee [⟨pattern, body, span⟩]).after s) arms

end

/-- The statements that a check comes to which goes through a list. -/
def turnAll {β : Type} (check : β → Check Unit) (turns : Checker → β → List Turn) (s : Checker) :
    List β → List Turn
  | [] => []
  | x :: xs => turns s x ++ turnAll check turns ((check x).after s) xs

/-- The statements that the check of a function comes to. -/
def FunctionDecl.turns (cx : CheckContext) (s : Checker) (f : FunctionDecl) : List Turn :=
  f.body.turns cx
    ((cx.declareParams f.params).after
      ((cx.checkAnnotation f.ret f.nameSpan).after { s with expected := some f.ret }).push)

/-- The statements that the check of a field comes to. -/
def FieldDecl.turns (cx : CheckContext) (s : Checker) (f : FieldDecl) : List Turn :=
  match f.initial with
  | none => []
  | some value => value.turns cx ((cx.checkAnnotation f.ty f.span).after s)

/-- The statements that the check of a class comes to. -/
def ClassDecl.turns (cx : CheckContext) (s : Checker) (c : ClassDecl) : List Turn :=
  let inside := { s with enclosing := some c.name }
  turnAll (checkField cx) (FieldDecl.turns cx) inside c.fields ++
    turnAll (checkFunction cx) (FunctionDecl.turns cx)
      ((c.fields.forM (checkField cx)).after inside) c.methods

/-! ### What a check tells of a piece -/

/-- The type of `this` in the body of a class. Outside it is unknown. -/
def selfTy (enclosing : Option String) : Ty :=
  (enclosing.map Ty.named).getD .unknown

/-- The node of a `this`. -/
def Expr.self? : Expr → Option Node
  | .this node => some node
  | _ => none

/-- The check is in that class, in a function that is to return that type. -/
structure Checker.At (enclosing : Option String) (ret : Option Ty) (s : Checker) : Prop where
  enclosing : s.enclosing = enclosing
  expected : s.expected = ret

/-- Checking a piece that stands in a class comes to the statements within it, each with the type
that its innermost function is to return, and gives every `this` within it the type of the class.
What has been found by the end of each statement is still known at the end. -/
structure Turned {α : Type} (cx : CheckContext) (enclosing : Option String) (x : Check α)
    (s : Checker) (ts : List Turn) (ss : List (Ty × Stmt)) (es : List Expr) : Prop where
  grows : s.Grows (x.after s)
  due : ts.map Turn.due = ss.map fun p => (some p.1, p.2)
  kept : ∀ t ∈ ts, ((checkStmt cx t.stmt).after t.state).Grows (x.after s)
  this : ∀ node, .this node ∈ es → ⟨node, selfTy enclosing⟩ ∈ (x.after s).types.toList

namespace Checker.At

variable {enclosing : Option String} {ret : Option Ty} {s s' : Checker}

theorem push (h : s.At enclosing ret) : s.push.At enclosing ret :=
  ⟨h.enclosing, h.expected⟩

theorem returning (h : s.At enclosing ret) (ty : Ty) :
    Checker.At enclosing (some ty) { s with expected := some ty } :=
  ⟨h.enclosing, rfl⟩

theorem steps {ls : List Local} {ns : List Node} (h : s.At enclosing ret)
    (hs : Checker.Steps ls ns s s') : s'.At enclosing ret :=
  ⟨hs.enclosing.trans h.enclosing, hs.expected.trans h.expected⟩

theorem keeps {α : Type} {x : Check α} {ns : List Node} (h : s.At enclosing ret)
    (hx : Keeps x ns) : (x.after s).At enclosing ret :=
  h.steps (hx s)

end Checker.At

namespace Turned

variable {α β : Type} {cx : CheckContext} {enclosing : Option String} {x : Check α}
  {f : α → Check β} {s : Checker} {ts ts' : List Turn} {ss ss' : List (Ty × Stmt)}
  {es es' : List Expr} {ns : List Node}

/-- Nothing happens in a piece without statements and `this`. -/
theorem of_grows (h : s.Grows (x.after s)) (he : ∀ node, .this node ∉ es) :
    Turned cx enclosing x s [] [] es :=
  ⟨h, rfl, List.forall_mem_nil _, fun node hn => absurd hn (he node)⟩

theorem of_keeps (h : Keeps x ns) : Turned cx enclosing x s [] [] [] :=
  .of_grows (h s).grows fun _ => List.not_mem_nil

theorem bind (hx : Turned cx enclosing x s ts ss es)
    (hf : Turned cx enclosing (f (x.result s)) (x.after s) ts' ss' es') :
    Turned cx enclosing (x >>= f) s (ts ++ ts') (ss ++ ss') (es ++ es') := by
  refine ⟨hx.grows.trans hf.grows, ?_, ?_, fun node hn => ?_⟩
  · rw [List.map_append, List.map_append, hx.due, hf.due]
  · exact List.forall_mem_append.2 ⟨fun t ht => (hx.kept t ht).trans hf.grows, hf.kept⟩
  · rcases List.mem_append.1 hn with hn | hn
    · exact hf.grows.types _ (hx.this node hn)
    · exact hf.this node hn

/-- Behind a piece, variables are declared. -/
theorem ending {ls : List Local} (hx : Turned cx enclosing x s ts ss es)
    (hf : Checker.Steps ls ns (x.after s) ((f (x.result s)).after (x.after s))) :
    Turned cx enclosing (x >>= f) s ts ss es :=
  ⟨hx.grows.trans hf.grows, hx.due, fun t ht => (hx.kept t ht).trans hf.grows,
    fun node hn => hf.grows.types _ (hx.this node hn)⟩

/-- Behind a piece, a step in which there are no statements. -/
theorem before (hx : Turned cx enclosing x s ts ss es) (hf : ∀ a, Keeps (f a) ns) :
    Turned cx enclosing (x >>= f) s ts ss es :=
  hx.ending (hf _ _)

/-- Before a piece, a step in which there are no statements. -/
theorem behind {ls : List Local} (hf : Turned cx enclosing (f (x.result s)) (x.after s) ts ss es)
    (hx : Checker.Steps ls ns s (x.after s)) : Turned cx enclosing (x >>= f) s ts ss es :=
  ⟨hx.grows.trans hf.grows, hf.due, hf.kept, hf.this⟩

theorem discard (h : Turned cx enclosing x s ts ss es) :
    Turned cx enclosing (discard x) s ts ss es :=
  ⟨h.grows, h.due, h.kept, h.this⟩

/-- The check of a piece leaves another state behind, in which the same has been found. -/
theorem within {y : Check β} {s' : Checker} (h : Turned cx enclosing x s' ts ss es)
    (hs : s.Grows s') (hd : (x.after s').Grows (y.after s)) : Turned cx enclosing y s ts ss es :=
  ⟨hs.trans (h.grows.trans hd), h.due, fun t ht => (h.kept t ht).trans hd,
    fun node hn => hd.types _ (h.this node hn)⟩

theorem inScope (h : Turned cx enclosing x s.push ts ss es) :
    Turned cx enclosing (inScope x) s ts ss es :=
  h.within ⟨List.prefix_refl _, fun _ ht => ht⟩ ⟨List.prefix_refl _, fun _ ht => ht⟩

theorem returning {ty : Ty} (h : Turned cx enclosing x { s with expected := some ty } ts ss es) :
    Turned cx enclosing (returning ty x) s ts ss es :=
  h.within ⟨List.prefix_refl _, fun _ ht => ht⟩ ⟨List.prefix_refl _, fun _ ht => ht⟩

theorem inClass {name : String}
    (h : Turned cx enclosing x { s with enclosing := some name } ts ss es) :
    Turned cx enclosing (inClass name x) s ts ss es :=
  h.within ⟨List.prefix_refl _, fun _ ht => ht⟩ ⟨List.prefix_refl _, fun _ ht => ht⟩

/-- An expression that is no `this`, behind those inside it. -/
theorem own {e : Expr} (h : Turned cx enclosing x s ts ss es) (he : e.within = es ++ [e])
    (hself : e.self? = none) : Turned cx enclosing x s ts ss e.within := by
  refine ⟨h.grows, h.due, h.kept, fun node hn => ?_⟩
  rw [he] at hn
  rcases List.mem_append.1 hn with hn | hn
  · exact h.this node hn
  · rw [← List.mem_singleton.1 hn] at hself
    cases hself

/-- A statement, behind those inside it. -/
theorem turn {stmt : Stmt} {ret : Ty} (h : Turned cx enclosing (checkStmt cx stmt) s ts ss es)
    (hs : s.At enclosing (some ret)) :
    Turned cx enclosing (checkStmt cx stmt) s (ts ++ [⟨stmt, s⟩]) (ss ++ [(ret, stmt)]) es := by
  refine ⟨h.grows, ?_, ?_, h.this⟩
  · rw [List.map_append, List.map_append, h.due]
    exact congrArg (fun expected => _ ++ [(expected, stmt)]) hs.expected
  · exact List.forall_mem_append.2 ⟨h.kept, List.forall_mem_singleton.2 (.refl _)⟩

/-- A check that goes through a list. -/
theorem forM {ret : Option Ty} {γ : Type} {check : γ → Check Unit} {turns : Checker → γ → List Turn}
    {statements : γ → List (Ty × Stmt)} {exprs : γ → List Expr} {ns : γ → List Node}
    (hk : ∀ a, Keeps (check a) (ns a))
    (ht : ∀ a {s : Checker}, s.At enclosing ret →
      Turned cx enclosing (check a) s (turns s a) (statements a) (exprs a)) :
    ∀ (as : List γ) {s : Checker}, s.At enclosing ret →
      Turned cx enclosing (as.forM check) s (turnAll check turns s as) (as.flatMap statements)
        (as.flatMap exprs)
  | [], _, _ => .of_keeps (.pure PUnit.unit)
  | a :: as, _, h =>
    (ht a h).bind (f := fun _ => as.forM check) (forM hk ht as (h.keeps (hk a)))

end Turned

/-! ### What is left out -/

section

variable {names : Names} {e : Expr}

/-- There are no statements in an identifier, and no `this`. -/
theorem plain_ident (h : ∃ node name, e = .ident node name) :
    e.statements = [] ∧ ∀ node, .this node ∉ e.within := by
  obtain ⟨node, name, rfl⟩ := h
  exact ⟨rfl, by simp [Expr.within]⟩

theorem plain_builtin : ∀ {e : Expr}, names.isBuiltin e = true →
    e.statements = [] ∧ ∀ node, .this node ∉ e.within
  | .ident node name, _ => plain_ident ⟨node, name, rfl⟩
  | .member _ object _ _, h => by
    obtain ⟨hs, hw⟩ := plain_builtin (e := object) h
    exact ⟨hs, by simp [Expr.within, hw]⟩

/-- The type of something without statements and `this` is recorded. -/
theorem record_turned {cx : CheckContext} {enclosing : Option String} {s : Checker}
    (h : e.statements = [] ∧ ∀ node, .this node ∉ e.within) :
    Turned cx enclosing (record e.node .unknown) s [] e.statements e.within := by
  rw [h.1]
  exact .of_grows (Keeps.record e.node .unknown s).grows h.2

end

/-! ### Along a check -/

section

variable (cx : CheckContext) {enclosing : Option String} {ret : Option Ty}

theorem appliedTy_turned (callee : Expr) (span : Span) (calleeTy : Ty) {args : List Expr}
    {s : Checker}
    (ha : ∀ (params : List Ty) {s : Checker}, s.At enclosing ret →
      Turned cx enclosing (checkArgs cx params args) s (argsTurns cx params s args)
        (exprsStatements args) (exprsWithin args))
    (h : s.At enclosing ret) :
    Turned cx enclosing (cx.appliedTy callee args span calleeTy) s
      (argsTurns cx ((CheckContext.expectCallable callee args.length span calleeTy).result s)
        ((CheckContext.expectCallable callee args.length span calleeTy).after s) args)
      (exprsStatements args) (exprsWithin args) := by
  cases calleeTy with
  | fn params result =>
    have hk : Keeps (expectArity callee params.length args.length span) [] :=
      .ite (.pure ()) (.report _ _)
    exact ((ha params (h.keeps hk)).before fun _ => .pure _).behind (hk s)
  | unknown => exact (ha [] h).before fun _ => .pure _
  | _ => exact (ha [] h).before fun _ => (Keeps.report _ _).bind fun _ => .pure _

mutual

/-- Checking an expression comes to the statements and to each `this` in it. -/
theorem checkExpr_turned : ∀ (e : Expr) {ret : Option Ty} {s : Checker}, s.At enclosing ret →
    Turned cx enclosing (checkExpr cx e) s (e.turns cx s) e.statements e.within
  | .int _ _, _, _, _ | .float _ _, _, _, _ | .string _ _, _, _, _ | .bool _ _, _, _, _
  | .noneLit _, _, _, _ | .ident _ _, _, _, _ =>
    (Turned.of_keeps (checkExpr_keeps cx _)).own rfl rfl
  | .this node, _, s, h => by
    refine ⟨(checkExpr_keeps cx (.this node) s).grows, rfl, List.forall_mem_nil _, ?_⟩
    intro node' hn
    obtain rfl : node' = node := by simpa [Expr.within] using hn
    rw [← h.enclosing]
    exact checkExpr_records cx (.this node') s
  | .interpolated node parts, _, _, h =>
    ((checkParts_turned parts h).before fun _ =>
      (Keeps.record node _).before fun _ => .pure _).own rfl rfl
  | .someOf node inner, _, _, h =>
    ((checkExpr_turned inner h).before fun _ =>
      (Keeps.record node _).before fun _ => .pure _).own rfl rfl
  | .binary node op left right, _, _, h => by
    have hr := checkExpr_turned right (h.keeps (checkExpr_keeps cx left))
    exact ((checkExpr_turned left h).bind (hr.before fun _ =>
      (binaryTy_keeps op _ _ _).recorded node)).own rfl rfl
  | .unary node op operand, _, _, h =>
    ((checkExpr_turned operand h).before fun _ => (unaryTy_keeps op _).recorded node).own rfl rfl
  | .assign node target value, _, _, h => by
    have hv := checkExpr_turned value (h.keeps (checkExpr_keeps cx target))
    exact ((checkExpr_turned target h).bind (hv.before fun _ =>
      .after (fun _ => (Keeps.record node _).before fun _ => .pure _)
        (.expectAssignable _ _ _))).own rfl rfl
  | .call node callee args, _, s, h => by
    suffices hparts : Turned cx enclosing (checkExpr cx (.call node callee args)) s _ _
      (callee.within ++ exprsWithin args) from hparts.own rfl rfl
    rw [Expr.turns, Expr.statements]
    cases hi : cx.names.intrinsic? callee with
    | some name =>
      rw [checkExpr_call_intrinsic cx hi]
      have hc : Turned cx enclosing (record callee.node .unknown) s [] _ _ :=
        record_turned (plain_ident (Names.exists_ident_of_intrinsic? hi))
      have ha := checkArgs_turned args [] (h.keeps (Keeps.record callee.node .unknown))
      exact hc.bind (ha.before fun _ => (Keeps.record node _).before fun _ => .pure _)
    | none =>
      rw [checkExpr_call cx hi]
      have hc := checkExpr_turned callee h
      have ha := appliedTy_turned cx callee node.span ((checkExpr cx callee).result s)
        (fun params _ => checkArgs_turned args params) (h.keeps (checkExpr_keeps cx callee))
      exact hc.bind (ha.before fun _ => (Keeps.record node _).before fun _ => .pure _)
  | .member node object name nameSpan, _, s, h => by
    suffices hparts : Turned cx enclosing (checkExpr cx (.member node object name nameSpan)) s _ _
      object.within from hparts.own rfl rfl
    rw [Expr.turns, Expr.statements]
    cases hb : cx.names.isBuiltin object with
    | true =>
      rw [checkExpr_member_builtin cx hb]
      have ho : Turned cx enclosing (record object.node .unknown) s [] _ _ :=
        record_turned (plain_builtin hb)
      exact ho.before fun _ => (Keeps.record node _).before fun _ => .pure _
    | false =>
      cases ha : cx.names.aliased? object with
      | some path =>
        rw [checkExpr_member_aliased cx hb ha]
        have ho : Turned cx enclosing (record object.node .unknown) s [] _ _ :=
          record_turned (plain_ident (Names.exists_ident_of_aliased? ha))
        exact ho.before fun _ => (moduleMemberTy_keeps cx path name nameSpan).recorded node
      | none =>
        rw [checkExpr_member_value cx hb ha]
        exact (checkExpr_turned object h).before fun _ =>
          (valueMemberTy_keeps cx _ name _ nameSpan).recorded node
  | .index node object place, _, _, h => by
    have hp := checkExpr_turned place (h.keeps (checkExpr_keeps cx object))
    exact ((checkExpr_turned object h).bind (hp.before fun _ =>
      .after (fun _ => (indexedTy_keeps _).recorded node) (.expectAssignable _ _ _))).own rfl rfl
  | .new node className classSpan args, _, _, h =>
    ((checkArgs_turned args [] h).before fun _ =>
      (instanceTy_keeps cx className classSpan).recorded node).own rfl rfl
  | .array node items, _, _, h =>
    ((checkItems_turned items .unknown h).before fun _ =>
      (Keeps.record node _).before fun _ => .pure _).own rfl rfl
  | .lambda node params ret body, _, s, h => by
    -- The body is checked in a state in which another type is to be returned.
    have hp := declareParams_steps cx params (Checker.push { s with expected := some ret })
    have hb := (checkBlock_turned body ((h.returning ret).push.steps hp)).behind
      (f := fun _ => checkBlock cx body) hp
    have hl : Turned cx enclosing (returning ret (inScope do
        cx.declareParams params
        checkBlock cx body)) s _ _ _ := hb.inScope.returning
    exact (hl.before fun _ => (Keeps.record node _).before fun _ => .pure _).own rfl rfl

theorem checkArgs_turned : ∀ (args : List Expr) (params : List Ty) {ret : Option Ty} {s : Checker},
    s.At enclosing ret →
    Turned cx enclosing (checkArgs cx params args) s (argsTurns cx params s args)
      (exprsStatements args) (exprsWithin args)
  | [], [], _, _, _ | [], _ :: _, _, _, _ => .of_keeps (.pure ())
  | arg :: args, [], _, _, h => by
    have hs := checkArgs_turned args [] (h.keeps (checkExpr_keeps cx arg))
    exact (checkExpr_turned arg h).discard.bind (f := fun _ => checkArgs cx [] args) hs
  | arg :: args, param :: params, _, s, h => by
    have hk := Keeps.expectAssignable ((checkExpr cx arg).result s) param arg.span
    have hs := checkArgs_turned args params ((h.keeps (checkExpr_keeps cx arg)).keeps hk)
    exact (checkExpr_turned arg h).bind (hs.behind (hk _))

theorem checkItems_turned : ∀ (items : List Expr) (common : Ty) {ret : Option Ty} {s : Checker},
    s.At enclosing ret →
    Turned cx enclosing (checkItems cx common items) s (itemsTurns cx common s items)
      (exprsStatements items) (exprsWithin items)
  | [], common, _, _, _ => .of_keeps (.pure common)
  | item :: items, common, _, s, h => by
    have hk := joinElement_keeps common (item.typed ((checkExpr cx item).result s))
    have hs := checkItems_turned items ((checkItems cx common [item]).result s)
      ((h.keeps (checkExpr_keeps cx item)).keeps hk)
    exact (checkExpr_turned item h).bind (hs.behind (hk _))

theorem checkParts_turned : ∀ (parts : List Part) {ret : Option Ty} {s : Checker},
    s.At enclosing ret →
    Turned cx enclosing (checkParts cx parts) s (partsTurns cx s parts) (partsStatements parts)
      (partsWithin parts)
  | [], _, _, _ => .of_keeps (.pure ())
  | .text _ :: parts, _, _, h => checkParts_turned parts h
  | .hole e :: parts, _, _, h => by
    have hs := checkParts_turned parts (h.keeps (checkExpr_keeps cx e))
    exact (checkExpr_turned e h).discard.bind (f := fun _ => checkParts cx parts) hs

/-- Checking a statement comes to the statements and to each `this` in it. -/
theorem checkStmt_turned : ∀ (stmt : Stmt) {ret : Ty} {s : Checker}, s.At enclosing (some ret) →
    Turned cx enclosing (checkStmt cx stmt) s (stmt.turns cx s) (stmt.statements ret) stmt.within
  | .letStmt name _ none value nameSpan _, _, s, h => by
    have hd := declare_steps name nameSpan ((checkExpr cx value).result s)
      ((checkExpr cx value).after s)
    exact Turned.turn ((checkExpr_turned value h).ending hd) h
  | .letStmt name _ (some ty) value nameSpan _, _, s, h => by
    have hk (valueTy : Ty) : Keeps (do
        cx.checkAnnotation ty nameSpan
        expectAssignable valueTy ty value.span) [] :=
      (checkAnnotation_keeps cx ty nameSpan).bind fun _ => .expectAssignable _ _ _
    have hv := (checkExpr_turned value h).before hk
    have hl := hv.ending (f := fun _ => declare name ty) (declare_steps name nameSpan ty _)
    exact Turned.turn hl h
  | .returnStmt none span, _, _, h => Turned.turn (.of_keeps (returned_keeps .void span)) h
  | .returnStmt (some value) _, _, s, h =>
    Turned.turn ((checkExpr_turned value h).before fun ty => returned_keeps ty value.span) h
  | .ifStmt condition body none _, _, s, h | .whileStmt condition body _, _, s, h => by
    have hc : Turned cx enclosing (checkCondition cx condition) s _ _ _ :=
      (checkExpr_turned condition h).before fun _ => .expectAssignable _ _ _
    have hb := checkBlock_turned body (h.keeps (checkCondition_keeps cx condition))
    exact Turned.turn (hc.bind (f := fun _ => checkBlock cx body) hb) h
  | .ifStmt condition body (some otherwise) _, _, s, h => by
    have hc : Turned cx enclosing (checkCondition cx condition) s _ _ _ :=
      (checkExpr_turned condition h).before fun _ => .expectAssignable _ _ _
    have hb := checkBlock_turned body (h.keeps (checkCondition_keeps cx condition))
    have ho := checkStmt_turned otherwise (h.keeps (checkBranch_keeps cx condition body))
    have ht := hc.bind (f := fun _ => checkBlock cx body) hb
    exact Turned.turn (ht.bind (f := fun _ => checkStmt cx otherwise) ho) h
  | .forStmt name nameSpan iterable body _, _, s, h => by
    have hi : Turned cx enclosing (checkIterable cx iterable) s _ _ _ :=
      (checkExpr_turned iterable h).before fun _ => elementTy_keeps _
    have hd := declare_steps name nameSpan ((checkIterable cx iterable).result s)
      ((checkIterable cx iterable).after s).push
    have hs := (h.keeps (checkIterable_keeps cx iterable)).push.steps hd
    have hb := ((checkBlock_turned body hs).behind (f := fun _ => checkBlock cx body) hd).inScope
    exact Turned.turn (hi.bind (f := fun element => inScope do
      declare name element
      checkBlock cx body) hb) h
  | .matchStmt scrutinee arms _, _, s, h => by
    have ha := checkArms_turned arms ((checkExpr cx scrutinee).result s)
      (h.keeps (checkExpr_keeps cx scrutinee))
    exact Turned.turn ((checkExpr_turned scrutinee h).bind ha) h
  | .block body, _, _, h => Turned.turn (checkBlock_turned body h) h
  | .expr value, _, _, h => Turned.turn (checkExpr_turned value h).discard h

theorem checkStmts_turned : ∀ (stmts : List Stmt) {ret : Ty} {s : Checker},
    s.At enclosing (some ret) →
    Turned cx enclosing (checkStmts cx stmts) s (stmtsTurns cx s stmts) (stmtsStatements ret stmts)
      (stmtsWithin stmts)
  | [], _, _, _ => .of_keeps (.pure ())
  | stmt :: stmts, _, s, h =>
    (checkStmt_turned stmt h).bind (checkStmts_turned stmts (h.steps (checkStmt_steps cx stmt s)))

theorem checkBlock_turned : ∀ (body : Block) {ret : Ty} {s : Checker}, s.At enclosing (some ret) →
    Turned cx enclosing (checkBlock cx body) s (body.turns cx s) (body.statements ret) body.within
  | ⟨stmts, _⟩, _, _, h => (checkStmts_turned stmts h.push).inScope

theorem checkArms_turned : ∀ (arms : List Arm) (scrutinee : Ty) {ret : Ty} {s : Checker},
    s.At enclosing (some ret) →
    Turned cx enclosing (checkArms cx scrutinee arms) s (armsTurns cx scrutinee s arms)
      (armsStatements ret arms) (armsWithin arms)
  | [], _, _, _, _ => .of_keeps (.pure ())
  | ⟨pattern, body, span⟩ :: arms, scrutinee, _, s, h => by
    have hd := declarePattern_steps scrutinee pattern span s.push
    have hb := ((checkBlock_turned body (h.push.steps hd)).behind
      (f := fun _ => checkBlock cx body) hd).inScope
    have hk := checkArms_keeps cx [⟨pattern, body, span⟩] scrutinee
    exact hb.bind (f := fun _ => checkArms cx scrutinee arms)
      (checkArms_turned arms scrutinee (h.keeps hk))

end

theorem checkFunction_turned (f : FunctionDecl) {s : Checker} (h : s.At enclosing ret) :
    Turned cx enclosing (checkFunction cx f) s (f.turns cx s) f.statements f.body.within := by
  have ha := checkAnnotation_keeps cx f.ret f.nameSpan
  have hp := declareParams_steps cx f.params
    ((cx.checkAnnotation f.ret f.nameSpan).after { s with expected := some f.ret }).push
  have hs := ((h.returning f.ret).keeps ha).push.steps hp
  have hb := (checkBlock_turned cx f.body hs).behind (f := fun _ => checkBlock cx f.body) hp
  have hf := hb.inScope.behind (f := fun _ => inScope do
    cx.declareParams f.params
    checkBlock cx f.body) (ha _)
  exact hf.returning

theorem checkField_turned (f : FieldDecl) {s : Checker} (h : s.At enclosing ret) :
    Turned cx enclosing (checkField cx f) s (f.turns cx s) (exprsStatements f.initial.toList)
      (exprsWithin f.initial.toList) := by
  have ha := checkAnnotation_keeps cx f.ty f.span
  refine Turned.behind ?_ (ha s)
  unfold FieldDecl.turns
  cases f.initial with
  | none => exact .of_keeps (.pure ())
  | some value =>
    have hv := (checkExpr_turned cx value (h.keeps ha)).before fun ty =>
      Keeps.expectAssignable ty f.ty value.span
    rw [Option.toList_some, exprsStatements, exprsStatements, exprsWithin, exprsWithin,
      List.append_nil, List.append_nil]
    exact hv

theorem checkClass_turned (c : ClassDecl) {s : Checker} (h : s.At enclosing ret) :
    Turned cx (some c.name) (checkClass cx c) s (c.turns cx s) c.statements c.within := by
  have hc : Checker.At (some c.name) ret { s with enclosing := some c.name } := ⟨rfl, h.expected⟩
  have hf := Turned.forM (checkField_keeps cx) (fun f _ => checkField_turned cx f) c.fields hc
  have hk := Keeps.forM (checkField_keeps cx) c.fields
  have hm := Turned.forM (checkFunction_keeps cx) (fun f _ => checkFunction_turned cx f) c.methods
    (hc.keeps hk)
  rw [flatMap_initials rfl (by simp [exprsStatements]),
    flatMap_initials rfl (by simp [exprsWithin])] at hf
  exact (hf.bind (f := fun _ => c.methods.forM (checkFunction cx)) hm).inClass

end

/-! ### What is known afterwards -/

/-- A type can be stored where another one is expected, or the mismatch is among the faults. -/
def Checker.Weighs (s : Checker) (received expected : Ty) (span : Span) : Prop :=
  received.isAssignable expected = true ∨
    ⟨.typeMismatch expected.text received.text, span⟩ ∈ s.errors.toList

/-- What the statement returns, if it does, has been compared with a type. -/
def Stmt.Compared (ret : Ty) (s : Checker) : Stmt → Prop
  | .returnStmt none span => s.Weighs .void ret span
  | .returnStmt (some value) _ =>
    ∃ ty, ⟨value.node, ty⟩ ∈ s.types.toList ∧ s.Weighs ty ret value.span
  | _ => True

/-- Everything that the statements return has been compared, each time with the type that the
innermost function is to return, and every `this` has the type of the class. -/
structure Checker.Knows (enclosing : Option String) (s : Checker) (ss : List (Ty × Stmt))
    (es : List Expr) : Prop where
  compared : ∀ p ∈ ss, p.2.Compared p.1 s
  this : ∀ node, .this node ∈ es → ⟨node, selfTy enclosing⟩ ∈ s.types.toList

theorem Stmt.Compared.mono {ret : Ty} {s s' : Checker} {stmt : Stmt} (h : stmt.Compared ret s)
    (hs : s.Grows s') : stmt.Compared ret s' := by
  have hweighs {received : Ty} {span : Span} (hw : s.Weighs received ret span) :
      s'.Weighs received ret span := hw.imp_right (hs.errors.subset ·)
  cases stmt with
  | returnStmt value span =>
    cases value with
    | none => exact hweighs h
    | some value =>
      obtain ⟨ty, hty, hw⟩ := h
      exact ⟨ty, hs.types _ hty, hweighs hw⟩
  | _ => trivial

theorem Checker.Knows.mono {enclosing : Option String} {s s' : Checker} {ss : List (Ty × Stmt)}
    {es : List Expr} (h : s.Knows enclosing ss es) (hs : s.Grows s') : s'.Knows enclosing ss es :=
  ⟨fun p hp => (h.compared p hp).mono hs, fun node hn => hs.types _ (h.this node hn)⟩

theorem expectAssignable_weighs (received expected : Ty) (span : Span) (s : Checker) :
    ((expectAssignable received expected span).after s).Weighs received expected span := by
  unfold expectAssignable
  by_cases h : received.isAssignable expected = true
  · exact .inl h
  · rw [if_neg h]
    exact .inr (by simp [mismatch])

/-- What is returned is compared with the type that the check holds to be the one to return. -/
theorem returned_weighs {s : Checker} {ret : Ty} (h : s.expected = some ret) (ty : Ty)
    (span : Span) :
    ((do
      if let some expected := (← get).expected then
        expectAssignable ty expected span : Check Unit).after s).Weighs ty ret span := by
  rw [after_bind, result_get, after_get, h]
  exact expectAssignable_weighs ty ret span s

theorem checkStmt_compared (cx : CheckContext) {s : Checker} {ret : Ty} (h : s.expected = some ret)
    (stmt : Stmt) : stmt.Compared ret ((checkStmt cx stmt).after s) := by
  cases stmt with
  | returnStmt value span =>
    cases value with
    | none => exact returned_weighs h .void span
    | some value =>
      have hk := returned_keeps ((checkExpr cx value).result s) value.span
        ((checkExpr cx value).after s)
      have he := (checkExpr_keeps cx value s).expected.trans h
      exact ⟨_, hk.grows.types _ (checkExpr_records cx value s), returned_weighs he _ _⟩
  | _ => trivial

/-- What is said of the statements that a check comes to is said of those that are there. -/
theorem Turned.knows {α : Type} {cx : CheckContext} {enclosing : Option String} {x : Check α}
    {s : Checker} {ts : List Turn} {ss : List (Ty × Stmt)} {es : List Expr}
    (h : Turned cx enclosing x s ts ss es) : (x.after s).Knows enclosing ss es := by
  refine ⟨fun p hp => ?_, h.this⟩
  have hmem : (some p.1, p.2) ∈ ts.map Turn.due := by
    rw [h.due]
    exact List.mem_map_of_mem hp
  obtain ⟨t, ht, heq⟩ := List.mem_map.1 hmem
  obtain ⟨hret, hstmt⟩ := Prod.mk.inj heq
  rw [← hstmt]
  exact (checkStmt_compared cx hret t.stmt).mono (h.kept t ht)

/-- In the check of a list, every element gets its check, and what that finds is not lost. -/
theorem exists_start {γ : Type} {check : γ → Check Unit} {ns : γ → List Node}
    (hk : ∀ a, Keeps (check a) (ns a)) {a : γ} : ∀ {as : List γ}, a ∈ as → ∀ s : Checker,
      ∃ s' ns', Checker.Steps [] ns' s s' ∧ ((check a).after s').Grows ((as.forM check).after s)
  | b :: as, ha, s => by
    have has := Keeps.forM hk as
    rcases List.mem_cons.1 ha with rfl | ha
    · exact ⟨s, [], .refl s, (has _).grows⟩
    · obtain ⟨s', ns', hs, hg⟩ := exists_start hk ha ((check b).after s)
      exact ⟨s', ns b ++ ns', (hk b s).trans hs, hg⟩

/-! ### The check ends where it stood -/

/-- The check stands where it stood: in the same scopes with the same variables, in the same
function and in the same class. Only the mark of how deep it has been may have gone up. -/
structure Checker.Restored (s s' : Checker) : Prop where
  frames : s'.locals.frames = s.locals.frames
  imports : s'.locals.imports = s.locals.imports
  expected : s'.expected = s.expected
  enclosing : s'.enclosing = s.enclosing
  maxDepth : s.locals.maxDepth ≤ s'.locals.maxDepth

/-- The check stands where it stood, but the innermost scope has the variable: it is new there, or
has taken the place of one of its name. -/
structure Checker.Lets (l : Local) (s s' : Checker) : Prop where
  view : s'.locals.view = s.locals.view.modifyHead (Function.update · l.name (some l.ty))
  imports : s'.locals.imports = s.locals.imports
  expected : s'.expected = s.expected
  enclosing : s'.enclosing = s.enclosing
  maxDepth : s.locals.maxDepth ≤ s'.locals.maxDepth

/-- The name that a statement declares for those after it: that of a `let`, which may stand behind
`else`. -/
def Stmt.letName? : Stmt → Option String
  | .letStmt name _ _ _ _ _ => some name
  | .ifStmt _ _ (some otherwise) _ => otherwise.letName?
  | _ => none

theorem Stmt.map_name_locals (cx : CheckContext) : ∀ (stmt : Stmt) (s : Checker),
    (stmt.locals cx s).map (·.name) = stmt.letName?.toList
  | .letStmt _ _ none _ _ _, _ | .letStmt _ _ (some _) _ _ _, _ => rfl
  | .ifStmt condition body (some otherwise) _, s =>
    otherwise.map_name_locals cx ((checkBranch cx condition body).after s)
  | .ifStmt _ _ none _, _ | .returnStmt _ _, _ | .whileStmt _ _ _, _ | .forStmt _ _ _ _ _, _
  | .matchStmt _ _ _, _ | .block _, _ | .expr _, _ => rfl

namespace Checker.Steps

variable {ns : List Node} {s s' : Checker}

theorem restored (h : Checker.Steps [] ns s s') : s.Restored s' :=
  ⟨h.frames.trans (ScopeStack.onto_nil _), h.imports, h.expected, h.enclosing, h.maxDepth⟩

theorem lets {l : Local} (h : Checker.Steps [l] ns s s') : s.Lets l s' :=
  ⟨ScopeStack.view_of_frames h.frames, h.imports, h.expected, h.enclosing, h.maxDepth⟩

end Checker.Steps

theorem checkStmt_restored (cx : CheckContext) (stmt : Stmt) (s : Checker) :
    (stmt.letName? = none → s.Restored ((checkStmt cx stmt).after s)) ∧
      ∀ name, stmt.letName? = some name → ∃ l, stmt.locals cx s = [l] ∧ l.name = name ∧
        s.Lets l ((checkStmt cx stmt).after s) := by
  have hsteps := checkStmt_steps cx stmt s
  have hnames := stmt.map_name_locals cx s
  refine ⟨fun hnone => ?_, fun name hname => ?_⟩
  · rw [hnone, Option.toList_none, List.map_eq_nil_iff] at hnames
    rw [hnames] at hsteps
    exact hsteps.restored
  · rw [hname, Option.toList_some, List.map_eq_singleton_iff] at hnames
    obtain ⟨l, hl, rfl⟩ := hnames
    rw [hl] at hsteps
    exact ⟨l, hl, rfl, hsteps.lets⟩

/-- The check comes to the statements of a piece knowing what their functions are to return, and to
each `this` knowing its class. -/
structure Answers {α : Type} (cx : CheckContext) (enclosing : Option String) (x : Check α)
    (s : Checker) (ts : List Turn) (ss : List (Ty × Stmt)) (es : List Expr) : Prop where
  turned : Turned cx enclosing x s ts ss es
  knows : (x.after s).Knows enclosing ss es

theorem Turned.answers {α : Type} {cx : CheckContext} {enclosing : Option String} {x : Check α}
    {s : Checker} {ts : List Turn} {ss : List (Ty × Stmt)} {es : List Expr}
    (h : Turned cx enclosing x s ts ss es) : Answers cx enclosing x s ts ss es :=
  ⟨h, h.knows⟩

/-- To close the scope of a module loses nothing. -/
theorem grows_checkModule (cx : CheckContext) :
    ((cx.module.decls.functions.forM (checkFunction cx)).after
      ((cx.module.decls.classes.forM (checkClass cx)).after (Checker.push {}))).Grows
        ((checkModule cx).after {}) :=
  ⟨List.prefix_refl _, fun _ ht => ht⟩

/-- Whatever is checked from whatever state, the check puts back what it has changed, and judges by
what is around. -/
structure CheckContext.Disciplined (cx : CheckContext) : Prop where
  expr_restored : ∀ (e : Expr) (s : Checker), s.Restored ((checkExpr cx e).after s)
  stmt_restored : ∀ (stmt : Stmt) (s : Checker),
    (stmt.letName? = none → s.Restored ((checkStmt cx stmt).after s)) ∧
      ∀ name, stmt.letName? = some name → ∃ l, stmt.locals cx s = [l] ∧ l.name = name ∧
        s.Lets l ((checkStmt cx stmt).after s)
  block_restored : ∀ (body : Block) (s : Checker), s.Restored ((checkBlock cx body).after s)
  function_restored : ∀ (f : FunctionDecl) (s : Checker), s.Restored ((checkFunction cx f).after s)
  class_restored : ∀ (c : ClassDecl) (s : Checker), s.Restored ((checkClass cx c).after s)
  expr_answers : ∀ (e : Expr) (s : Checker),
    Answers cx s.enclosing (checkExpr cx e) s (e.turns cx s) e.statements e.within
  stmt_answers : ∀ (stmt : Stmt) (s : Checker) (ret : Ty), s.expected = some ret →
    Answers cx s.enclosing (checkStmt cx stmt) s (stmt.turns cx s) (stmt.statements ret)
      stmt.within
  block_answers : ∀ (body : Block) (s : Checker) (ret : Ty), s.expected = some ret →
    Answers cx s.enclosing (checkBlock cx body) s (body.turns cx s) (body.statements ret)
      body.within
  function_answers : ∀ (f : FunctionDecl) (s : Checker),
    Answers cx s.enclosing (checkFunction cx f) s (f.turns cx s) f.statements f.body.within
  class_answers : ∀ (c : ClassDecl) (s : Checker),
    Answers cx (some c.name) (checkClass cx c) s (c.turns cx s) c.statements c.within
  module_classes : ∀ c ∈ cx.module.decls.classes,
    ((checkModule cx).after {}).Knows (some c.name) c.statements c.within
  module_functions : ∀ f ∈ cx.module.decls.functions,
    ((checkModule cx).after {}).Knows none f.statements f.body.within

/-- **A check ends where it stood.** Whatever piece of a tree is checked, from whatever state, the
variables in sight, the type to return and the class are afterwards what they were; only a `let`
puts one variable into the innermost scope. Therefore, at any depth, every `return` is compared with
what its own function is to return, be that an anonymous one, and every `this` has the type of the
class around it. -/
theorem check_disciplined (cx : CheckContext) : cx.Disciplined where
  expr_restored e s := (checkExpr_keeps cx e s).restored
  stmt_restored := checkStmt_restored cx
  block_restored body s := (checkBlock_keeps cx body s).restored
  function_restored f s := (checkFunction_keeps cx f s).restored
  class_restored c s := (checkClass_keeps cx c s).restored
  expr_answers e _ := (checkExpr_turned cx e ⟨rfl, rfl⟩).answers
  stmt_answers stmt _ _ h := (checkStmt_turned cx stmt ⟨rfl, h⟩).answers
  block_answers body _ _ h := (checkBlock_turned cx body ⟨rfl, h⟩).answers
  function_answers f _ := (checkFunction_turned cx f ⟨rfl, rfl⟩).answers
  class_answers c _ := (checkClass_turned cx c ⟨rfl, rfl⟩).answers
  module_classes c hc := by
    obtain ⟨s, ns, hs, hg⟩ := exists_start (checkClass_keeps cx) hc (Checker.push {})
    have hlast := Keeps.forM (checkFunction_keeps cx) cx.module.decls.functions
      ((cx.module.decls.classes.forM (checkClass cx)).after (Checker.push {}))
    have hclass := checkClass_turned cx c (⟨hs.enclosing, hs.expected⟩ : s.At none none)
    exact hclass.knows.mono ((hg.trans hlast.grows).trans (grows_checkModule cx))
  module_functions f hf := by
    have hclasses := Keeps.forM (checkClass_keeps cx) cx.module.decls.classes (Checker.push {})
    obtain ⟨s, ns, hs, hg⟩ := exists_start (checkFunction_keeps cx) hf
      ((cx.module.decls.classes.forM (checkClass cx)).after (Checker.push {}))
    have hat : s.At none none :=
      ⟨hs.enclosing.trans hclasses.enclosing, hs.expected.trans hclasses.expected⟩
    exact (checkFunction_turned cx f hat).knows.mono (hg.trans (grows_checkModule cx))

end MgLang
