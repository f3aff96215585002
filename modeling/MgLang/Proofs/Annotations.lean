import MgLang.Proofs.ClassNames
import MgLang.Proofs.Silence
/-!
# Types that are written

A type is written at a parameter, behind the parameters of a function, at a field and at a `let`.
The check of a module looks at the classes that such a type names, at any depth of the type and
wherever in the module it stands (`annotations_known`), with one exception: it does not look at what
an anonymous function is to return (`lambda_return_not_looked_at`), although it does look at what
any other function is to return.

Every step of a check vets the annotations of its piece (`Vets`): unless it reports a fault, their
classes are known.
-/

namespace MgLang

open Check

/-! ### The annotations of a module -/

/-- Where a type is written. -/
inductive AnnotationPlace where
  /-- At a parameter of a function, of a method or of an anonymous function. -/
  | param
  /-- Behind the parameters of a function or a method. -/
  | returned
  /-- Behind the parameters of an anonymous function. -/
  | lambdaReturned
  | field
  | letBinding
deriving DecidableEq, Repr

/-- A type that is written somewhere. -/
structure Annotation where
  place : AnnotationPlace
  ty : Ty
deriving DecidableEq, Repr

/-- The annotations of parameters. -/
def paramAnnotations (params : List Param) : List Annotation :=
  params.map fun p => ⟨.param, p.ty⟩

mutual

/-- The annotations within an expression, which stand in anonymous functions. -/
def Expr.annotations : Expr → List Annotation
  | .int _ _ | .float _ _ | .string _ _ | .bool _ _ | .ident _ _ | .this _ | .noneLit _ => []
  | .interpolated _ parts => partsAnnotations parts
  | .someOf _ inner => inner.annotations
  | .binary _ _ left right => left.annotations ++ right.annotations
  | .unary _ _ operand => operand.annotations
  | .assign _ target value => target.annotations ++ value.annotations
  | .call _ callee args => callee.annotations ++ exprsAnnotations args
  | .member _ object _ _ => object.annotations
  | .index _ object place => object.annotations ++ place.annotations
  | .new _ _ _ args => exprsAnnotations args
  | .array _ items => exprsAnnotations items
  | .lambda _ params ret body =>
    ⟨.lambdaReturned, ret⟩ :: (paramAnnotations params ++ body.annotations)

/-- The annotations within expressions. -/
def exprsAnnotations : List Expr → List Annotation
  | [] => []
  | e :: es => e.annotations ++ exprsAnnotations es

/-- The annotations within the holes of an interpolated string. -/
def partsAnnotations : List Part → List Annotation
  | [] => []
  | .text _ :: parts => partsAnnotations parts
  | .hole e :: parts => e.annotations ++ partsAnnotations parts

/-- The annotations within a statement. -/
def Stmt.annotations : Stmt → List Annotation
  | .letStmt _ _ none value _ _ => value.annotations
  | .letStmt _ _ (some ty) value _ _ => value.annotations ++ [⟨.letBinding, ty⟩]
  | .returnStmt none _ => []
  | .returnStmt (some value) _ => value.annotations
  | .ifStmt condition body none _ => condition.annotations ++ body.annotations
  | .ifStmt condition body (some otherwise) _ =>
    condition.annotations ++ body.annotations ++ otherwise.annotations
  | .whileStmt condition body _ => condition.annotations ++ body.annotations
  | .forStmt _ _ iterable body _ => iterable.annotations ++ body.annotations
  | .matchStmt scrutinee arms _ => scrutinee.annotations ++ armsAnnotations arms
  | .block body => body.annotations
  | .expr value => value.annotations

/-- The annotations within statements. -/
def stmtsAnnotations : List Stmt → List Annotation
  | [] => []
  | stmt :: stmts => stmt.annotations ++ stmtsAnnotations stmts

/-- The annotations within a block. -/
def Block.annotations : Block → List Annotation
  | ⟨stmts, _⟩ => stmtsAnnotations stmts

/-- The annotations within the arms of a `match`. -/
def armsAnnotations : List Arm → List Annotation
  | [] => []
  | ⟨_, body, _⟩ :: arms => body.annotations ++ armsAnnotations arms

end

/-- The annotations of a function or a method. -/
def FunctionDecl.annotations (f : FunctionDecl) : List Annotation :=
  ⟨.returned, f.ret⟩ :: (paramAnnotations f.params ++ f.body.annotations)

/-- The annotations of a field. -/
def FieldDecl.annotations (f : FieldDecl) : List Annotation :=
  ⟨.field, f.ty⟩ :: exprsAnnotations f.initial.toList

/-- The annotations of a class. -/
def ClassDecl.annotations (c : ClassDecl) : List Annotation :=
  c.fields.flatMap FieldDecl.annotations ++ c.methods.flatMap FunctionDecl.annotations

/-- All types that are written in a module. -/
def Module.annotations (m : Module) : List Annotation :=
  m.decls.classes.flatMap ClassDecl.annotations ++
    m.decls.functions.flatMap FunctionDecl.annotations

/-! ### Vetting annotations -/

/-- The classes that the annotation names are known, if it is one that is looked at. -/
def Annotation.Known (cx : CheckContext) (a : Annotation) : Prop :=
  a.place ≠ .lambdaReturned → ∀ name ∈ a.ty.classNames, (cx.class? name).isSome = true

/-- A step only adds to the faults; and if it adds none, the annotations are known. -/
structure Vets {α : Type} (cx : CheckContext) (x : Check α) (s : Checker) (as : List Annotation) :
    Prop where
  errors : s.errors.toList <+: (x.after s).errors.toList
  known : (x.after s).errors = s.errors → ∀ a ∈ as, a.Known cx

namespace Vets

variable {α β : Type} {cx : CheckContext} {x : Check α} {f : α → Check β} {s : Checker}
  {as as' : List Annotation} {ns : List Node}

theorem of_keeps (h : Keeps x ns) : Vets cx x s [] :=
  ⟨(h s).errors, fun _ => List.forall_mem_nil _⟩

theorem bind (hx : Vets cx x s as) (hf : Vets cx (f (x.result s)) (x.after s) as') :
    Vets cx (x >>= f) s (as ++ as') := by
  refine ⟨hx.errors.trans hf.errors, fun he => ?_⟩
  obtain ⟨hex, hef⟩ := (Judged.prefix_eq_iff hx.errors hf.errors).1 he
  exact List.forall_mem_append.2 ⟨hx.known hex, hf.known hef⟩

/-- Behind a step, another one that vets nothing. -/
theorem before (hx : Vets cx x s as) (hf : ∀ a, Keeps (f a) ns) : Vets cx (x >>= f) s as := by
  have h := hx.bind (of_keeps (hf (x.result s)))
  rwa [List.append_nil] at h

/-- Behind a step, variables are declared. -/
theorem ending {ls : List Local} (hx : Vets cx x s as)
    (hf : Checker.Steps ls ns (x.after s) ((f (x.result s)).after (x.after s))) :
    Vets cx (x >>= f) s as := by
  refine ⟨hx.errors.trans hf.errors, fun he => ?_⟩
  exact hx.known ((Judged.prefix_eq_iff hx.errors hf.errors).1 he).1

/-- Before a step, another one that vets nothing. -/
theorem behind {ls : List Local} (hf : Vets cx (f (x.result s)) (x.after s) as)
    (hx : Checker.Steps ls ns s (x.after s)) : Vets cx (x >>= f) s as := by
  refine ⟨hx.errors.trans hf.errors, fun he => ?_⟩
  exact hf.known ((Judged.prefix_eq_iff hx.errors hf.errors).1 he).2

theorem discard (h : Vets cx x s as) : Vets cx (discard x) s as :=
  ⟨h.errors, h.known⟩

theorem inScope (h : Vets cx x s.push as) : Vets cx (inScope x) s as :=
  ⟨h.errors, h.known⟩

theorem returning {ty : Ty} (h : Vets cx x { s with expected := some ty } as) :
    Vets cx (returning ty x) s as :=
  ⟨h.errors, h.known⟩

theorem inClass {name : String} (h : Vets cx x { s with enclosing := some name } as) :
    Vets cx (inClass name x) s as :=
  ⟨h.errors, h.known⟩

theorem forM {f : α → Check PUnit} {g : α → List Annotation} (h : ∀ a s, Vets cx (f a) s (g a)) :
    ∀ (xs : List α) (s : Checker), Vets cx (xs.forM f) s (xs.flatMap g)
  | [], _ => of_keeps (.pure PUnit.unit)
  | x :: xs, s => (h x s).bind (f := fun _ => xs.forM f) (forM h xs _)

/-- What an anonymous function is to return is not looked at. -/
theorem lambda (h : Vets cx x s as) (ret : Ty) : Vets cx x s (⟨.lambdaReturned, ret⟩ :: as) :=
  ⟨h.errors, fun he => List.forall_mem_cons.2 ⟨fun hp => absurd rfl hp, h.known he⟩⟩

end Vets

/-! ### The steps of a check -/

section

variable {cx : CheckContext} (hi : cx.module.importFailed = false)
include hi

theorem checkAnnotation_vets (place : AnnotationPlace) (ty : Ty) (span : Span) (s : Checker) :
    Vets cx (cx.checkAnnotation ty span) s [⟨place, ty⟩] := by
  have hname (name : String) (s : Checker) : Vets cx
      (if (cx.class? name).isSome then pure () else cx.undefinedClass name span) s
      [⟨place, .named name⟩] := by
    by_cases hc : (cx.class? name).isSome = true
    · rw [if_pos hc]
      refine ⟨List.prefix_refl _, fun _ => List.forall_mem_singleton.2 fun _ n hn => ?_⟩
      rwa [List.mem_singleton.1 hn]
    · rw [if_neg hc, CheckContext.undefinedClass, hi, if_neg Bool.false_ne_true]
      exact ⟨by simp, fun he => absurd he (by simp)⟩
  have h := Vets.forM hname ty.classNames s
  refine ⟨h.errors, fun he => List.forall_mem_singleton.2 fun hp name hn => ?_⟩
  have hmem : (⟨place, .named name⟩ : Annotation) ∈
      ty.classNames.flatMap fun n => [⟨place, .named n⟩] :=
    List.mem_flatMap.2 ⟨name, hn, List.mem_singleton_self _⟩
  exact h.known he _ hmem hp name (List.mem_singleton_self name)

theorem declareParams_vets (params : List Param) (s : Checker) :
    Vets cx (cx.declareParams params) s (paramAnnotations params) := by
  have h := Vets.forM (fun p s => (checkAnnotation_vets hi .param p.ty p.span s).ending
    (f := fun _ => declare p.name p.ty) (declare_steps p.name p.span p.ty _)) params s
  rw [paramAnnotations, List.map_eq_flatMap]
  exact h

end

/-! ### What is left out has no annotations -/

section

variable {names : Names}

theorem annotations_intrinsic {e : Expr} {name : String} (h : names.intrinsic? e = some name) :
    e.annotations = [] := by
  obtain ⟨node, n, rfl⟩ := Names.exists_ident_of_intrinsic? h
  rfl

theorem annotations_aliased {e : Expr} {path : String} (h : names.aliased? e = some path) :
    e.annotations = [] := by
  obtain ⟨node, n, rfl⟩ := Names.exists_ident_of_aliased? h
  rfl

theorem annotations_builtin : ∀ {e : Expr}, names.isBuiltin e = true → e.annotations = []
  | .ident _ _, _ => rfl
  | .member _ object _ _, h => annotations_builtin (e := object) h

end

/-! ### The check of a piece -/

section

variable {cx : CheckContext}

theorem appliedTy_vets (callee : Expr) (span : Span) (calleeTy : Ty) {args : List Expr}
    (s : Checker)
    (ha : ∀ (params : List Ty) (s : Checker),
      Vets cx (checkArgs cx params args) s (exprsAnnotations args)) :
    Vets cx (cx.appliedTy callee args span calleeTy) s (exprsAnnotations args) := by
  cases calleeTy with
  | fn params ret =>
    have hk : Keeps (expectArity callee params.length args.length span) [] :=
      .ite (.pure ()) (.report _ _)
    exact ((ha params _).before fun _ => .pure _).behind (hk s)
  | unknown => exact (ha [] s).before fun _ => .pure _
  | _ => exact (ha [] s).before fun _ => (Keeps.report _ _).bind fun _ => .pure _

mutual

/-- Checking an expression vets the annotations in it. -/
theorem checkExpr_vets (hi : cx.module.importFailed = false) : ∀ (e : Expr) (s : Checker),
    Vets cx (checkExpr cx e) s e.annotations
  | .int _ _, _ | .float _ _, _ | .string _ _, _ | .bool _ _, _ | .noneLit _, _ | .this _, _
  | .ident _ _, _ => .of_keeps (checkExpr_keeps cx _)
  | .interpolated node parts, s =>
    (checkParts_vets hi parts s).before fun _ => (Keeps.record node _).before fun _ => .pure _
  | .someOf node inner, s =>
    (checkExpr_vets hi inner s).before fun _ => (Keeps.record node _).before fun _ => .pure _
  | .binary node op left right, s =>
    (checkExpr_vets hi left s).bind ((checkExpr_vets hi right _).before fun _ =>
      (binaryTy_keeps op _ _ _).recorded node)
  | .unary node op operand, s =>
    (checkExpr_vets hi operand s).before fun _ => (unaryTy_keeps op _).recorded node
  | .assign node target value, s =>
    (checkExpr_vets hi target s).bind ((checkExpr_vets hi value _).before fun _ =>
      .after (fun _ => (Keeps.record node _).before fun _ => .pure _) (.expectAssignable _ _ _))
  | .call node callee args, s => by
    rw [Expr.annotations]
    cases hn : cx.names.intrinsic? callee with
    | some name =>
      rw [checkExpr_call_intrinsic cx hn, annotations_intrinsic hn, List.nil_append]
      have ha := checkArgs_vets hi args [] ((record callee.node .unknown).after s)
      have hr := ha.before fun _ => (Keeps.record node (intrinsicTy name)).before fun _ =>
        .pure (intrinsicTy name)
      exact hr.behind (Keeps.record callee.node .unknown s)
    | none =>
      rw [checkExpr_call cx hn]
      have ha := appliedTy_vets callee node.span ((checkExpr cx callee).result s)
        ((checkExpr cx callee).after s) fun params s => checkArgs_vets hi args params s
      exact (checkExpr_vets hi callee s).bind (ha.before fun _ =>
        (Keeps.record node _).before fun _ => .pure _)
  | .member node object name nameSpan, s => by
    rw [Expr.annotations]
    cases hb : cx.names.isBuiltin object with
    | true =>
      rw [annotations_builtin hb]
      exact .of_keeps (checkExpr_keeps cx _)
    | false =>
      cases ha : cx.names.aliased? object with
      | some path =>
        rw [annotations_aliased ha]
        exact .of_keeps (checkExpr_keeps cx _)
      | none =>
        rw [checkExpr_member_value cx hb ha]
        exact (checkExpr_vets hi object s).before fun _ =>
          (valueMemberTy_keeps cx _ name _ nameSpan).recorded node
  | .index node object place, s =>
    (checkExpr_vets hi object s).bind ((checkExpr_vets hi place _).before fun _ =>
      .after (fun _ => (indexedTy_keeps _).recorded node) (.expectAssignable _ _ _))
  | .new node className classSpan args, s =>
    (checkArgs_vets hi args [] s).before fun _ =>
      (instanceTy_keeps cx className classSpan).recorded node
  | .array node items, s =>
    (checkItems_vets hi items .unknown s).before fun _ =>
      (Keeps.record node _).before fun _ => .pure _
  | .lambda node params ret body, s => by
    have hp := declareParams_vets hi params (Checker.push { s with expected := some ret })
    have hb := hp.bind (f := fun _ => checkBlock cx body) (checkBlock_vets hi body _)
    have hl := hb.inScope.returning.before fun _ =>
      (Keeps.record node (.fn (params.map (·.ty)) ret)).before fun _ =>
        .pure (Ty.fn (params.map (·.ty)) ret)
    exact hl.lambda ret

theorem checkArgs_vets (hi : cx.module.importFailed = false) : ∀ (args : List Expr)
    (params : List Ty) (s : Checker),
    Vets cx (checkArgs cx params args) s (exprsAnnotations args)
  | [], [], _ | [], _ :: _, _ => .of_keeps (.pure ())
  | arg :: args, [], s =>
    (checkExpr_vets hi arg s).discard.bind (f := fun _ => checkArgs cx [] args)
      (checkArgs_vets hi args [] _)
  | arg :: args, param :: params, s => by
    have hk := Keeps.expectAssignable ((checkExpr cx arg).result s) param arg.span
    exact (checkExpr_vets hi arg s).bind ((checkArgs_vets hi args params _).behind (hk _))

theorem checkItems_vets (hi : cx.module.importFailed = false) : ∀ (items : List Expr)
    (common : Ty) (s : Checker),
    Vets cx (checkItems cx common items) s (exprsAnnotations items)
  | [], common, _ => .of_keeps (.pure common)
  | item :: items, common, s => by
    have hk := joinElement_keeps common (item.typed ((checkExpr cx item).result s))
    exact (checkExpr_vets hi item s).bind ((checkItems_vets hi items _ _).behind (hk _))

theorem checkParts_vets (hi : cx.module.importFailed = false) : ∀ (parts : List Part) (s : Checker),
    Vets cx (checkParts cx parts) s (partsAnnotations parts)
  | [], _ => .of_keeps (.pure ())
  | .text _ :: parts, s => checkParts_vets hi parts s
  | .hole e :: parts, s =>
    (checkExpr_vets hi e s).discard.bind (f := fun _ => checkParts cx parts)
      (checkParts_vets hi parts _)

/-- Checking a statement vets the annotations in it. -/
theorem checkStmt_vets (hi : cx.module.importFailed = false) : ∀ (stmt : Stmt) (s : Checker),
    Vets cx (checkStmt cx stmt) s stmt.annotations
  | .letStmt name _ none value nameSpan _, s =>
    (checkExpr_vets hi value s).ending (declare_steps name nameSpan _ _)
  | .letStmt name _ (some ty) value nameSpan _, s => by
    have ha := checkAnnotation_vets hi .letBinding ty nameSpan ((checkExpr cx value).after s)
    have hk := Keeps.expectAssignable ((checkExpr cx value).result s) ty value.span
      ((cx.checkAnnotation ty nameSpan).after ((checkExpr cx value).after s))
    exact (checkExpr_vets hi value s).bind (ha.ending (hk.trans (declare_steps name nameSpan ty _)))
  | .returnStmt none span, s => .of_keeps (returned_keeps .void span)
  | .returnStmt (some value) _, s =>
    (checkExpr_vets hi value s).before fun ty => returned_keeps ty value.span
  | .ifStmt condition body none _, s | .whileStmt condition body _, s => by
    have hc : Vets cx (checkCondition cx condition) s condition.annotations :=
      (checkExpr_vets hi condition s).before fun _ => .expectAssignable _ _ _
    exact hc.bind (f := fun _ => checkBlock cx body) (checkBlock_vets hi body _)
  | .ifStmt condition body (some otherwise) _, s => by
    have hc : Vets cx (checkCondition cx condition) s condition.annotations :=
      (checkExpr_vets hi condition s).before fun _ => .expectAssignable _ _ _
    have hb := hc.bind (f := fun _ => checkBlock cx body) (checkBlock_vets hi body _)
    exact hb.bind (f := fun _ => checkStmt cx otherwise) (checkStmt_vets hi otherwise _)
  | .forStmt name nameSpan iterable body _, s => by
    have hc : Vets cx (checkIterable cx iterable) s iterable.annotations :=
      (checkExpr_vets hi iterable s).before fun _ => elementTy_keeps _
    have hd := declare_steps name nameSpan ((checkIterable cx iterable).result s)
      ((checkIterable cx iterable).after s).push
    have hb := ((checkBlock_vets hi body _).behind (f := fun _ => checkBlock cx body) hd).inScope
    exact hc.bind (f := fun element => inScope do
      declare name element
      checkBlock cx body) hb
  | .matchStmt scrutinee arms _, s =>
    (checkExpr_vets hi scrutinee s).bind (checkArms_vets hi arms _ _)
  | .block body, s => checkBlock_vets hi body s
  | .expr value, s => (checkExpr_vets hi value s).discard

theorem checkStmts_vets (hi : cx.module.importFailed = false) : ∀ (stmts : List Stmt) (s : Checker),
    Vets cx (checkStmts cx stmts) s (stmtsAnnotations stmts)
  | [], _ => .of_keeps (.pure ())
  | stmt :: stmts, s =>
    (checkStmt_vets hi stmt s).bind (f := fun _ => checkStmts cx stmts) (checkStmts_vets hi stmts _)

theorem checkBlock_vets (hi : cx.module.importFailed = false) : ∀ (body : Block) (s : Checker),
    Vets cx (checkBlock cx body) s body.annotations
  | ⟨stmts, _⟩, s => (checkStmts_vets hi stmts s.push).inScope

theorem checkArms_vets (hi : cx.module.importFailed = false) : ∀ (arms : List Arm)
    (scrutinee : Ty) (s : Checker),
    Vets cx (checkArms cx scrutinee arms) s (armsAnnotations arms)
  | [], _, _ => .of_keeps (.pure ())
  | ⟨pattern, body, span⟩ :: arms, scrutinee, s => by
    have hd := declarePattern_steps scrutinee pattern span s.push
    have hb := ((checkBlock_vets hi body _).behind (f := fun _ => checkBlock cx body) hd).inScope
    exact hb.bind (f := fun _ => checkArms cx scrutinee arms) (checkArms_vets hi arms scrutinee _)

end

variable (hi : cx.module.importFailed = false)
include hi

theorem checkFunction_vets (f : FunctionDecl) (s : Checker) :
    Vets cx (checkFunction cx f) s f.annotations := by
  have ha := checkAnnotation_vets hi .returned f.ret f.nameSpan { s with expected := some f.ret }
  have hp := declareParams_vets hi f.params
    ((cx.checkAnnotation f.ret f.nameSpan).after { s with expected := some f.ret }).push
  have hb := hp.bind (f := fun _ => checkBlock cx f.body) (checkBlock_vets hi f.body _)
  exact (ha.bind (f := fun _ => inScope do
    cx.declareParams f.params
    checkBlock cx f.body) hb.inScope).returning

theorem checkField_vets (f : FieldDecl) (s : Checker) :
    Vets cx (checkField cx f) s f.annotations := by
  have ha := checkAnnotation_vets hi .field f.ty f.span s
  refine ha.bind ?_
  cases f.initial with
  | none => exact .of_keeps (.pure ())
  | some value =>
    rw [Option.toList_some, exprsAnnotations, exprsAnnotations, List.append_nil]
    exact (checkExpr_vets hi value _).before fun ty => .expectAssignable ty f.ty value.span

theorem checkClass_vets (c : ClassDecl) (s : Checker) :
    Vets cx (checkClass cx c) s c.annotations := by
  have hf := Vets.forM (checkField_vets hi) c.fields { s with enclosing := some c.name }
  have hm := Vets.forM (checkFunction_vets hi) c.methods
    ((c.fields.forM (checkField cx)).after { s with enclosing := some c.name })
  exact (hf.bind (f := fun _ => c.methods.forM (checkFunction cx)) hm).inClass

/-- The check of a module vets all its annotations. -/
theorem checkModule_vets (s : Checker) : Vets cx (checkModule cx) s cx.module.annotations := by
  have hc := Vets.forM (checkClass_vets hi) cx.module.decls.classes s.push
  have hf := Vets.forM (checkFunction_vets hi) cx.module.decls.functions
    ((cx.module.decls.classes.forM (checkClass cx)).after s.push)
  exact (hc.bind (f := fun _ => cx.module.decls.functions.forM (checkFunction cx)) hf).inScope

end

/-! ### Unknown classes in annotations -/

/-- A class declaration that is found has been found by its name. -/
theorem Registry.findClass?_of_classDecl? {r : Registry} {name origin : String}
    (h : (r.classDecl? name origin).isSome = true) : (r.findClass? name origin).isSome = true := by
  unfold classDecl? at h
  cases hf : r.findClass? name origin with
  | none => simp [hf] at h
  | some found => rfl

/-- **Every class in an annotation is known.** Where no import of a module has failed and the check
of the module reports nothing, every class that is named in an annotation, at any depth of the type,
is found from the module; this holds at every place at which a type can be written but for what an
anonymous function is to return. -/
theorem annotations_known {r : Registry} {path : String} {m : Module} (hm : r.find? path = some m)
    (hi : m.importFailed = false) (hs : (r.check (r.names path)).errors = []) {a : Annotation}
    (ha : a ∈ m.annotations) (hp : a.place ≠ .lambdaReturned) {name : String}
    (hn : name ∈ a.ty.classNames) : (r.findClass? name path).isSome = true := by
  have hv : Vets (r.checkContext path m) (checkModule _) {} m.annotations :=
    checkModule_vets hi {}
  have hclass := hv.known (errors_of_silent hm hs) a ha hp name hn
  rw [CheckContext.class?] at hclass
  rw [← Registry.path_of_find? hm]
  exact Registry.findClass?_of_classDecl? hclass

/-- `class Node { next: Option<Node>; }`. -/
def linked : Module where
  path := "main"
  package := .root "app"
  decls :=
    { classes :=
        [{ name := "Node"
           fields := [⟨"next", .option (.named "Node"), none, false, false, ⟨"main.mg", 13, 32⟩⟩]
           methods := []
           isPublic := true
           nameSpan := ⟨"main.mg", 6, 10⟩
           span := ⟨"main.mg", 0, 34⟩ }] }

/-- The field names the class inside another type, and the class is found. -/
theorem annotations_known_linked :
    let r := Registry.empty.insert linked
    (r.find? "main" = some linked ∧ linked.importFailed = false ∧
        (r.check (r.names "main")).errors = []) ∧
      ⟨.field, .option (.named "Node")⟩ ∈ linked.annotations ∧
      (r.findClass? "Node" "main").isSome = true := by
  intro r
  have hm : r.find? "main" = some linked := rfl
  have hs : (r.check (r.names "main")).errors = [] := by decide
  have ha : ⟨.field, .option (.named "Node")⟩ ∈ linked.annotations := by decide
  exact ⟨⟨hm, rfl, hs⟩, ha, annotations_known hm rfl hs ha (by decide) (by decide)⟩

/-- `fn f() { fn() -> Missing { }; }`. -/
def promising : Module where
  path := "main"
  package := .root "app"
  decls :=
    { functions :=
        [{ name := "f"
           params := []
           ret := .void
           body :=
            ⟨[.expr (.lambda ⟨0, ⟨"main.mg", 9, 28⟩⟩ [] (.named "Missing")
                ⟨[], ⟨"main.mg", 25, 28⟩⟩)], ⟨"main.mg", 7, 31⟩⟩
           isPublic := true
           isStatic := false
           nameSpan := ⟨"main.mg", 3, 4⟩
           span := ⟨"main.mg", 0, 31⟩ }] }

/-- The anonymous function is to return an instance of a class that is nowhere, and nothing is
reported. -/
theorem lambda_return_not_looked_at :
    let r := Registry.empty.insert promising
    r.find? "main" = some promising ∧ promising.importFailed = false ∧
      (r.check (r.names "main")).errors = [] ∧
      ⟨.lambdaReturned, .named "Missing"⟩ ∈ promising.annotations ∧
      (r.findClass? "Missing" "main").isSome = false :=
  ⟨rfl, rfl, by decide, by decide, by decide⟩

end MgLang
