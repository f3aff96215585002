import MgLang.Proofs.CheckRun
/-!
# The expressions that a check reaches

The check of a module gives a type to every expression of the module once, whatever faults it meets
on its way, with one exception: it does not look into what a member is taken of if that is a built-in
namespace or something below one (`Expr.reached`). These expressions get types in this order, and no
others do (`checkModule_reaches`).
-/

namespace MgLang

open Check

/-! ### What is reached -/

mutual

/-- The expressions within an expression that a check reaches, each after those inside it. -/
def Expr.reached (n : Names) (e : Expr) : List Expr :=
  (match e with
    | .int _ _ | .float _ _ | .string _ _ | .bool _ _ | .ident _ _ | .this _ | .noneLit _ => []
    | .interpolated _ parts => partsReached n parts
    | .someOf _ inner => inner.reached n
    | .binary _ _ left right => left.reached n ++ right.reached n
    | .unary _ _ operand => operand.reached n
    | .assign _ target value => target.reached n ++ value.reached n
    | .call _ callee args => callee.reached n ++ exprsReached n args
    | .member _ object _ _ => if n.isBuiltin object then [object] else object.reached n
    | .index _ object index => object.reached n ++ index.reached n
    | .new _ _ _ args => exprsReached n args
    | .array _ items => exprsReached n items
    | .lambda _ _ _ body => body.reached n) ++ [e]

/-- The expressions within expressions that a check reaches. -/
def exprsReached (n : Names) : List Expr → List Expr
  | [] => []
  | e :: es => e.reached n ++ exprsReached n es

/-- The expressions within the holes of an interpolated string that a check reaches. -/
def partsReached (n : Names) : List Part → List Expr
  | [] => []
  | .text _ :: parts => partsReached n parts
  | .hole e :: parts => e.reached n ++ partsReached n parts

/-- The expressions within a statement that a check reaches. -/
def Stmt.reached (n : Names) : Stmt → List Expr
  | .letStmt _ _ _ value _ _ => value.reached n
  | .returnStmt none _ => []
  | .returnStmt (some value) _ => value.reached n
  | .ifStmt condition body none _ => condition.reached n ++ body.reached n
  | .ifStmt condition body (some otherwise) _ =>
    condition.reached n ++ body.reached n ++ otherwise.reached n
  | .whileStmt condition body _ => condition.reached n ++ body.reached n
  | .forStmt _ _ iterable body _ => iterable.reached n ++ body.reached n
  | .matchStmt scrutinee arms _ => scrutinee.reached n ++ armsReached n arms
  | .block body => body.reached n
  | .expr value => value.reached n

/-- The expressions within statements that a check reaches. -/
def stmtsReached (n : Names) : List Stmt → List Expr
  | [] => []
  | stmt :: stmts => stmt.reached n ++ stmtsReached n stmts

/-- The expressions within a block that a check reaches. -/
def Block.reached (n : Names) : Block → List Expr
  | ⟨stmts, _⟩ => stmtsReached n stmts

/-- The expressions within the arms of a `match` that a check reaches. -/
def armsReached (n : Names) : List Arm → List Expr
  | [] => []
  | ⟨_, body, _⟩ :: arms => body.reached n ++ armsReached n arms

end

/-- The expressions within a class that a check reaches. -/
def ClassDecl.reached (n : Names) (c : ClassDecl) : List Expr :=
  exprsReached n c.initials ++ c.methods.flatMap (·.body.reached n)

/-- The expressions of a module that a check reaches. -/
def Module.reached (n : Names) (m : Module) : List Expr :=
  m.decls.classes.flatMap (·.reached n) ++ m.decls.functions.flatMap (·.body.reached n)

/-! ### Exactly these are recorded -/

/-- A step gives a type to these expressions, in this order and to no others. -/
def Records {α : Type} (x : Check α) (s : Checker) (es : List Expr) : Prop :=
  ∃ ts, (x.after s).types.toList = s.types.toList ++ ts ∧ ts.map (·.node) = nodes es

namespace Records

variable {α β : Type} {x : Check α} {f : α → Check β} {s : Checker} {es es' : List Expr}

/-- A step that gives types to none of no expressions. -/
theorem quiet {ls : List Local} (h : Checker.Steps ls [] s (x.after s)) : Records x s [] := by
  obtain ⟨ts, ht, hn⟩ := h.types
  exact ⟨ts, ht, List.sublist_nil.1 hn⟩

theorem bind (hx : Records x s es) (hf : Records (f (x.result s)) (x.after s) es') :
    Records (x >>= f) s (es ++ es') := by
  obtain ⟨ts, ht, hn⟩ := hx
  obtain ⟨ts', ht', hn'⟩ := hf
  refine ⟨ts ++ ts', ?_, by rw [List.map_append, nodes, List.map_append, hn, hn']⟩
  rw [after_bind, ht', ht, List.append_assoc]

/-- Behind a step, another one that gives types to no expression. -/
theorem ending {ls : List Local} (hx : Records x s es)
    (hf : Checker.Steps ls [] (x.after s) ((f (x.result s)).after (x.after s))) :
    Records (x >>= f) s es := by
  have h := hx.bind (quiet hf)
  rwa [List.append_nil] at h

/-- Before a step, another one that gives types to no expression. -/
theorem behind {ls : List Local} (hf : Records (f (x.result s)) (x.after s) es)
    (hx : Checker.Steps ls [] s (x.after s)) : Records (x >>= f) s es :=
  (quiet hx).bind hf

theorem record (e : Expr) (ty : Ty) (s : Checker) : Records (Check.record e.node ty) s [e] :=
  ⟨[⟨e.node, ty⟩], by simp, rfl⟩

/-- The type of an expression is recorded last. -/
theorem last (e : Expr) (ty : Ty) (s : Checker) :
    Records (do Check.record e.node ty; return ty) s [e] :=
  (record e ty s).ending (Keeps.pure ty _)

/-- The type that a step finds for an expression is recorded last. -/
theorem typed {x : Check Ty} (h : Checker.Steps [] [] s (x.after s)) (e : Expr) :
    Records (x >>= fun ty => Check.record e.node ty >>= fun _ => pure ty) s [e] :=
  (last e _ _).behind h

theorem discard (h : Records x s es) : Records (discard x) s es := h

theorem inScope (h : Records x s.push es) : Records (inScope x) s es := h

theorem returning {ty : Ty} (h : Records x { s with expected := some ty } es) :
    Records (returning ty x) s es := h

theorem inClass {name : String} (h : Records x { s with enclosing := some name } es) :
    Records (inClass name x) s es := h

theorem forM {f : α → Check PUnit} {g : α → List Expr} (h : ∀ a s, Records (f a) s (g a)) :
    ∀ (xs : List α) (s : Checker), Records (xs.forM f) s (xs.flatMap g)
  | [], _ => quiet (Keeps.pure PUnit.unit _)
  | x :: xs, s => (h x s).bind (f := fun _ => xs.forM f) (forM h xs _)

end Records

section

variable {cx : CheckContext}

theorem appliedTy_records (callee : Expr) (span : Span) (calleeTy : Ty) {args : List Expr}
    (s : Checker)
    (ha : ∀ (params : List Ty) (s : Checker),
      Records (checkArgs cx params args) s (exprsReached cx.names args)) :
    Records (cx.appliedTy callee args span calleeTy) s (exprsReached cx.names args) := by
  cases calleeTy with
  | fn params ret =>
    have hk : Keeps (expectArity callee params.length args.length span) [] :=
      .ite (.pure ()) (.report _ _)
    have hr : Records (do checkArgs cx params args; return ret)
        ((expectArity callee params.length args.length span).after s)
        (exprsReached cx.names args) :=
      (ha params _).ending (Keeps.pure ret _)
    exact hr.behind (f := fun _ => do checkArgs cx params args; return ret) (hk s)
  | unknown => exact (ha [] s).ending (Keeps.pure Ty.unknown _)
  | _ => exact (ha [] s).ending (((Keeps.report _ _).bind fun _ => .pure Ty.unknown) _)

/-- What names a module or an intrinsic function has nothing inside. -/
theorem reached_ident {e : Expr} (h : ∃ node name, e = .ident node name) (n : Names) :
    e.reached n = [e] := by
  obtain ⟨node, name, rfl⟩ := h
  rfl

mutual

/-- The check of an expression records the expressions in it that it reaches. -/
theorem checkExpr_reaches : ∀ (e : Expr) (s : Checker),
    Records (checkExpr cx e) s (e.reached cx.names)
  | .int node value, s => .last (.int node value) .int s
  | .float node text, s => .last (.float node text) .float s
  | .string node text, s => .last (.string node text) .string s
  | .bool node value, s => .last (.bool node value) .bool s
  | .noneLit node, s => .last (.noneLit node) (.option .unknown) s
  | .this node, s => .last (.this node) _ s
  | .ident node name, s => .typed (identTy_keeps cx node.id name s) (.ident node name)
  | .interpolated node parts, s =>
    (checkParts_reaches parts s).bind (.last (.interpolated node parts) .string _)
  | .someOf node inner, s => (checkExpr_reaches inner s).bind (.last (.someOf node inner) _ _)
  | .binary node op left right, s => by
    rw [Expr.reached, List.append_assoc]
    exact (checkExpr_reaches left s).bind ((checkExpr_reaches right _).bind
      (.typed (binaryTy_keeps op _ _ node.span _) (.binary node op left right)))
  | .unary node op operand, s =>
    (checkExpr_reaches operand s).bind (.typed (unaryTy_keeps op _ _) (.unary node op operand))
  | .assign node target value, s => by
    rw [Expr.reached, List.append_assoc]
    exact (checkExpr_reaches target s).bind ((checkExpr_reaches value _).bind
      ((Records.last (.assign node target value) _ _).behind (Keeps.expectAssignable _ _ _ _)))
  | .call node callee args, s => by
    rw [Expr.reached, List.append_assoc]
    cases hn : cx.names.intrinsic? callee with
    | some name =>
      rw [checkExpr_call_intrinsic cx hn, reached_ident (Names.exists_ident_of_intrinsic? hn)]
      exact (Records.record callee .unknown s).bind ((checkArgs_reaches args [] _).bind
        (.last (.call node callee args) (intrinsicTy name) _))
    | none =>
      rw [checkExpr_call cx hn]
      have ha := appliedTy_records callee node.span ((checkExpr cx callee).result s)
        ((checkExpr cx callee).after s) fun params s => checkArgs_reaches args params s
      exact (checkExpr_reaches callee s).bind (ha.bind (.last (.call node callee args) _ _))
  | .member node object name nameSpan, s => by
    rw [Expr.reached]
    cases hb : cx.names.isBuiltin object with
    | true =>
      rw [checkExpr_member_builtin cx hb]
      exact (Records.record object .unknown s).bind
        (.last (.member node object name nameSpan) .unknown _)
    | false =>
      cases ha : cx.names.aliased? object with
      | some path =>
        rw [checkExpr_member_aliased cx hb ha, reached_ident (Names.exists_ident_of_aliased? ha)]
        exact (Records.record object .unknown s).bind
          (.typed (moduleMemberTy_keeps cx path name nameSpan _)
            (.member node object name nameSpan))
      | none =>
        rw [checkExpr_member_value cx hb ha]
        exact (checkExpr_reaches object s).bind
          (.typed (valueMemberTy_keeps cx _ name _ nameSpan _) (.member node object name nameSpan))
  | .index node object index, s => by
    rw [Expr.reached, List.append_assoc]
    exact (checkExpr_reaches object s).bind ((checkExpr_reaches index _).bind
      ((Records.typed (indexedTy_keeps _ _) (.index node object index)).behind
        (Keeps.expectAssignable _ _ _ _)))
  | .new node className classSpan args, s =>
    (checkArgs_reaches args [] s).bind
      (.typed (instanceTy_keeps cx className classSpan _) (.new node className classSpan args))
  | .array node items, s =>
    (checkItems_reaches items .unknown s).bind (.last (.array node items) _ _)
  | .lambda node params ret body, s => by
    have hp := declareParams_steps cx params (Checker.push { s with expected := some ret })
    have hb := (checkBlock_reaches body _).behind (f := fun _ => checkBlock cx body) hp
    exact hb.inScope.returning.bind (.last (.lambda node params ret body) _ _)

theorem checkArgs_reaches : ∀ (args : List Expr) (params : List Ty) (s : Checker),
    Records (checkArgs cx params args) s (exprsReached cx.names args)
  | [], [], _ | [], _ :: _, _ => .quiet (Keeps.pure () _)
  | arg :: args, [], s =>
    (checkExpr_reaches arg s).discard.bind (f := fun _ => checkArgs cx [] args)
      (checkArgs_reaches args [] _)
  | arg :: args, param :: params, s => by
    have hk := Keeps.expectAssignable ((checkExpr cx arg).result s) param arg.span
    exact (checkExpr_reaches arg s).bind ((checkArgs_reaches args params _).behind (hk _))

theorem checkItems_reaches : ∀ (items : List Expr) (common : Ty) (s : Checker),
    Records (checkItems cx common items) s (exprsReached cx.names items)
  | [], common, _ => .quiet (Keeps.pure common _)
  | item :: items, common, s => by
    have hk := joinElement_keeps common (item.typed ((checkExpr cx item).result s))
    exact (checkExpr_reaches item s).bind ((checkItems_reaches items _ _).behind (hk _))

theorem checkParts_reaches : ∀ (parts : List Part) (s : Checker),
    Records (checkParts cx parts) s (partsReached cx.names parts)
  | [], _ => .quiet (Keeps.pure () _)
  | .text _ :: parts, s => checkParts_reaches parts s
  | .hole e :: parts, s =>
    (checkExpr_reaches e s).discard.bind (f := fun _ => checkParts cx parts)
      (checkParts_reaches parts _)

/-- The check of a statement records the expressions in it that it reaches. -/
theorem checkStmt_reaches : ∀ (stmt : Stmt) (s : Checker),
    Records (checkStmt cx stmt) s (stmt.reached cx.names)
  | .letStmt name _ none value nameSpan _, s =>
    (checkExpr_reaches value s).ending (declare_steps name nameSpan _ _)
  | .letStmt name _ (some ty) value nameSpan _, s => by
    have ha := checkAnnotation_keeps cx ty nameSpan ((checkExpr cx value).after s)
    have hk := Keeps.expectAssignable ((checkExpr cx value).result s) ty value.span
      ((cx.checkAnnotation ty nameSpan).after ((checkExpr cx value).after s))
    exact (checkExpr_reaches value s).ending
      ((ha.trans hk).trans (declare_steps name nameSpan ty _))
  | .returnStmt none span, s => .quiet (returned_keeps .void span s)
  | .returnStmt (some value) _, s =>
    (checkExpr_reaches value s).ending (returned_keeps _ value.span _)
  | .ifStmt condition body none _, s | .whileStmt condition body _, s => by
    have hc : Records (checkCondition cx condition) s (condition.reached cx.names) :=
      (checkExpr_reaches condition s).ending (Keeps.expectAssignable _ _ _ _)
    exact hc.bind (f := fun _ => checkBlock cx body) (checkBlock_reaches body _)
  | .ifStmt condition body (some otherwise) _, s => by
    have hc : Records (checkCondition cx condition) s (condition.reached cx.names) :=
      (checkExpr_reaches condition s).ending (Keeps.expectAssignable _ _ _ _)
    have hb := hc.bind (f := fun _ => checkBlock cx body) (checkBlock_reaches body _)
    exact hb.bind (f := fun _ => checkStmt cx otherwise) (checkStmt_reaches otherwise _)
  | .forStmt name nameSpan iterable body _, s => by
    have hc : Records (checkIterable cx iterable) s (iterable.reached cx.names) :=
      (checkExpr_reaches iterable s).ending (elementTy_keeps _ _)
    have hd := declare_steps name nameSpan ((checkIterable cx iterable).result s)
      ((checkIterable cx iterable).after s).push
    have hb := ((checkBlock_reaches body _).behind (f := fun _ => checkBlock cx body) hd).inScope
    exact hc.bind (f := fun element => inScope do
      declare name element
      checkBlock cx body) hb
  | .matchStmt scrutinee arms _, s =>
    (checkExpr_reaches scrutinee s).bind (checkArms_reaches arms _ _)
  | .block body, s => checkBlock_reaches body s
  | .expr value, s => (checkExpr_reaches value s).discard

theorem checkStmts_reaches : ∀ (stmts : List Stmt) (s : Checker),
    Records (checkStmts cx stmts) s (stmtsReached cx.names stmts)
  | [], _ => .quiet (Keeps.pure () _)
  | stmt :: stmts, s =>
    (checkStmt_reaches stmt s).bind (f := fun _ => checkStmts cx stmts) (checkStmts_reaches stmts _)

theorem checkBlock_reaches : ∀ (body : Block) (s : Checker),
    Records (checkBlock cx body) s (body.reached cx.names)
  | ⟨stmts, _⟩, s => (checkStmts_reaches stmts s.push).inScope

theorem checkArms_reaches : ∀ (arms : List Arm) (scrutinee : Ty) (s : Checker),
    Records (checkArms cx scrutinee arms) s (armsReached cx.names arms)
  | [], _, _ => .quiet (Keeps.pure () _)
  | ⟨pattern, body, span⟩ :: arms, scrutinee, s => by
    have hd := declarePattern_steps scrutinee pattern span s.push
    have hb := ((checkBlock_reaches body _).behind (f := fun _ => checkBlock cx body) hd).inScope
    exact hb.bind (f := fun _ => checkArms cx scrutinee arms) (checkArms_reaches arms scrutinee _)

end

variable (cx)

theorem checkFunction_reaches (f : FunctionDecl) (s : Checker) :
    Records (checkFunction cx f) s (f.body.reached cx.names) := by
  have ha := checkAnnotation_keeps cx f.ret f.nameSpan { s with expected := some f.ret }
  have hp := declareParams_steps cx f.params
    ((cx.checkAnnotation f.ret f.nameSpan).after { s with expected := some f.ret }).push
  have hb := (checkBlock_reaches f.body _).behind (f := fun _ => checkBlock cx f.body) hp
  exact (hb.inScope.behind (f := fun _ => inScope do
    cx.declareParams f.params
    checkBlock cx f.body) ha).returning

theorem checkField_reaches (f : FieldDecl) (s : Checker) :
    Records (checkField cx f) s (exprsReached cx.names f.initial.toList) := by
  refine Records.behind ?_ (checkAnnotation_keeps cx f.ty f.span s)
  cases f.initial with
  | none => exact .quiet (Keeps.pure () _)
  | some value =>
    rw [Option.toList_some, exprsReached, exprsReached, List.append_nil]
    exact (checkExpr_reaches value _).ending (Keeps.expectAssignable _ f.ty value.span _)

theorem checkClass_reaches (c : ClassDecl) (s : Checker) :
    Records (checkClass cx c) s (c.reached cx.names) := by
  have hf := Records.forM (checkField_reaches cx) c.fields { s with enclosing := some c.name }
  have hm := Records.forM (checkFunction_reaches cx) c.methods
    ((c.fields.forM (checkField cx)).after { s with enclosing := some c.name })
  rw [flatMap_initials (g := exprsReached cx.names) rfl (by simp [exprsReached])] at hf
  exact (hf.bind (f := fun _ => c.methods.forM (checkFunction cx)) hm).inClass

/-- The check of a module records the expressions in it that it reaches. -/
theorem checkModule_reaches (s : Checker) :
    Records (checkModule cx) s (cx.module.reached cx.names) := by
  have hc := Records.forM (checkClass_reaches cx) cx.module.decls.classes s.push
  have hf := Records.forM (checkFunction_reaches cx) cx.module.decls.functions
    ((cx.module.decls.classes.forM (checkClass cx)).after s.push)
  exact (hc.bind (f := fun _ => cx.module.decls.functions.forM (checkFunction cx)) hf).inScope

end

end MgLang
