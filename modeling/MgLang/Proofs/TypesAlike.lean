import MgLang.Proofs.CheckRun
import MgLang.Proofs.NamesAlike
/-!
# Checking types in modules that look alike

Two type checks of one module are followed side by side. The second one sees registries that look
alike and a module with other numbers; and its module may have an import that failed, which excuses
classes that are unknown. It then finds the same types for the same expressions, and the same faults
but those that are excused (`checkModule_mirrors`).

Every step of the first check is mirrored by the corresponding step of the second one
(`Check.Mirrors`): from a state that mirrors another, it comes to the same result and to a state that
mirrors the other's.
-/

namespace MgLang

open Registry.Alike (seen)

/-! ### States side by side -/

/-- The fault is that a class is unknown. -/
def Cause.isUndefinedClass : Cause → Bool
  | .undefinedClass _ => true
  | _ => false

/-- The fault is met also where unknown classes are excused. -/
def Diagnostic.remains (excused : Bool) (d : Diagnostic) : Bool :=
  !(excused && d.cause.isUndefinedClass)

/-- The state of a second check: it has met the faults that remain, and found the same types of the
expressions with other numbers. -/
def Checker.mirror (ρ : Nat → Nat) (excused : Bool) (s : Checker) : Checker :=
  { s with
    errors := s.errors.filter (·.remains excused)
    types := s.types.map (·.renumber ρ) }

/-- Each run of the first step is mirrored by a run of the second one. -/
structure Check.Mirrors (ρ : Nat → Nat) (excused : Bool) {α : Type} (x x' : Check α) : Prop where
  result : ∀ s, x'.result (s.mirror ρ excused) = x.result s
  after : ∀ s, x'.after (s.mirror ρ excused) = (x.after s).mirror ρ excused

namespace Check.Mirrors

variable {ρ : Nat → Nat} {excused : Bool} {α β : Type} {x x' : Check α} {f f' : α → Check β}

theorem pure (a : α) : Mirrors ρ excused (Pure.pure a) (Pure.pure a) :=
  ⟨fun _ => rfl, fun _ => rfl⟩

theorem bind (hx : Mirrors ρ excused x x') (hf : ∀ a, Mirrors ρ excused (f a) (f' a)) :
    Mirrors ρ excused (x >>= f) (x' >>= f') := by
  refine ⟨fun s => ?_, fun s => ?_⟩
  · rw [result_bind, result_bind, hx.result, hx.after]
    exact (hf _).result _
  · rw [after_bind, after_bind, hx.result, hx.after]
    exact (hf _).after _

/-- A step that depends on the state. -/
theorem get {f f' : Checker → Check β}
    (hf : ∀ s, Mirrors ρ excused (f s) (f' (s.mirror ρ excused))) :
    Mirrors ρ excused (MonadState.get >>= f) (MonadState.get >>= f') :=
  ⟨fun s => (hf s).result s, fun s => (hf s).after s⟩

theorem ite {p : Prop} [Decidable p] {y y' : Check α} (hx : Mirrors ρ excused x x')
    (hy : Mirrors ρ excused y y') :
    Mirrors ρ excused (if p then x else y) (if p then x' else y') := by
  by_cases h : p
  · rw [if_pos h, if_pos h]
    exact hx
  · rw [if_neg h, if_neg h]
    exact hy

/-- Faults of every other kind remain. -/
theorem report {cause : Cause} (span : Span) (h : cause.isUndefinedClass = false) :
    Mirrors ρ excused (Check.report cause span) (Check.report cause span) := by
  refine ⟨fun _ => rfl, fun s => ?_⟩
  have hr : (⟨cause, span⟩ : Diagnostic).remains excused = true := by
    rw [Diagnostic.remains, h, Bool.and_false, Bool.not_false]
  simp only [after_report, Checker.mirror, Array.filter_push, hr, if_true]

theorem record (node : Node) (ty : Ty) :
    Mirrors ρ excused (Check.record node ty) (Check.record (node.renumber ρ) ty) := by
  refine ⟨fun _ => rfl, fun s => ?_⟩
  simp only [after_record, Checker.mirror, Array.map_push, TypedNode.renumber]

theorem declare (name : String) (ty : Ty) :
    Mirrors ρ excused (Check.declare name ty) (Check.declare name ty) :=
  ⟨fun _ => rfl, fun _ => rfl⟩

theorem discard (h : Mirrors ρ excused x x') : Mirrors ρ excused (discard x) (discard x') :=
  ⟨fun _ => rfl, h.after⟩

theorem mismatch (expected received : Ty) (span : Span) :
    Mirrors ρ excused (Check.mismatch expected received span)
      (Check.mismatch expected received span) :=
  report span rfl

theorem expectAssignable (received expected : Ty) (span : Span) :
    Mirrors ρ excused (Check.expectAssignable received expected span)
      (Check.expectAssignable received expected span) :=
  .ite (.pure ()) (.mismatch _ _ _)

/-- Behind a step, the type of an expression is recorded. -/
theorem recorded {x x' : Check Ty} (h : Mirrors ρ excused x x') (node : Node) :
    Mirrors ρ excused (x >>= fun ty => Check.record node ty >>= fun _ => Pure.pure ty)
      (x' >>= fun ty => Check.record (node.renumber ρ) ty >>= fun _ => Pure.pure ty) :=
  h.bind fun ty => (record node ty).bind fun _ => .pure ty

theorem inScope (h : Mirrors ρ excused x x') :
    Mirrors ρ excused (Check.inScope x) (Check.inScope x') := by
  refine ⟨fun s => h.result s.push, fun s => ?_⟩
  exact congrArg Checker.pop (h.after s.push)

theorem returning (h : Mirrors ρ excused x x') (ty : Ty) :
    Mirrors ρ excused (Check.returning ty x) (Check.returning ty x') := by
  refine ⟨fun s => h.result { s with expected := some ty }, fun s => ?_⟩
  exact congrArg ({ · with expected := s.expected }) (h.after { s with expected := some ty })

theorem inClass (h : Mirrors ρ excused x x') (name : String) :
    Mirrors ρ excused (Check.inClass name x) (Check.inClass name x') := by
  refine ⟨fun s => h.result { s with enclosing := some name }, fun s => ?_⟩
  exact congrArg ({ · with enclosing := s.enclosing }) (h.after { s with enclosing := some name })

theorem forM {f f' : α → Check PUnit} (h : ∀ a, Mirrors ρ excused (f a) (f' a)) :
    ∀ as : List α, Mirrors ρ excused (as.forM f) (as.forM f')
  | [] => .pure _
  | a :: as => (h a).bind fun _ => forM h as

theorem forM_map {g : α → α} {f f' : α → Check PUnit}
    (h : ∀ a, Mirrors ρ excused (f a) (f' (g a))) :
    ∀ as : List α, Mirrors ρ excused (as.forM f) ((as.map g).forM f')
  | [] => .pure _
  | a :: as => (h a).bind fun _ => forM_map h as

/-- Something is found in either case, and unless a condition holds a fault is met. -/
theorem reportUnless {p : Prop} [Decidable p] {cause : Cause} (span : Span) (a : α)
    (h : cause.isUndefinedClass = false) :
    Mirrors ρ excused (if p then Pure.pure a else do Check.report cause span; Pure.pure a)
      (if p then Pure.pure a else do Check.report cause span; Pure.pure a) :=
  .ite (.pure a) ((report span h).bind fun _ => .pure a)

end Check.Mirrors

open Check (Mirrors)

/-! ### Steps that look nothing up -/

section Steps

variable {ρ : Nat → Nat} {excused : Bool}

theorem binaryTy_mirrors (op : BinaryOp) (left right : TypedNode) (span : Span) :
    Mirrors ρ excused (Check.binaryTy op left right span)
      (Check.binaryTy op (left.renumber ρ) (right.renumber ρ) span) := by
  show Mirrors ρ excused _ (Check.binaryTy op left right span)
  unfold Check.binaryTy
  split
  · exact (Mirrors.expectAssignable _ _ _).bind fun _ =>
      (Mirrors.expectAssignable _ _ _).bind fun _ => .pure _
  · split
    · exact (Mirrors.mismatch _ _ _).bind fun _ => .pure _
    · refine .ite (.pure _) (.ite (.pure _) (.ite (.pure _) ?_))
      exact (Mirrors.mismatch _ _ _).bind fun _ => .pure _

theorem unaryTy_mirrors (op : UnaryOp) (operand : TypedNode) :
    Mirrors ρ excused (Check.unaryTy op operand) (Check.unaryTy op (operand.renumber ρ)) := by
  show Mirrors ρ excused _ (Check.unaryTy op operand)
  unfold Check.unaryTy
  split
  · exact .ite (.pure _) ((Mirrors.mismatch _ _ _).bind fun _ => .pure _)
  · exact (Mirrors.expectAssignable _ _ _).bind fun _ => .pure _

theorem elementTy_mirrors (iterable : TypedNode) :
    Mirrors ρ excused (Check.elementTy iterable) (Check.elementTy (iterable.renumber ρ)) := by
  show Mirrors ρ excused _ (Check.elementTy iterable)
  unfold Check.elementTy
  split
  · exact .pure _
  · exact .pure _
  · exact (Mirrors.mismatch _ _ _).bind fun _ => .pure _

theorem indexedTy_mirrors (object : TypedNode) :
    Mirrors ρ excused (Check.indexedTy object) (Check.indexedTy (object.renumber ρ)) := by
  show Mirrors ρ excused _ (Check.indexedTy object)
  unfold Check.indexedTy
  split
  · exact .pure _
  · exact elementTy_mirrors object

theorem joinElement_mirrors (common : Ty) (element : TypedNode) :
    Mirrors ρ excused (Check.joinElement common element)
      (Check.joinElement common (element.renumber ρ)) := by
  show Mirrors ρ excused _ (Check.joinElement common element)
  unfold Check.joinElement
  split
  · exact .pure _
  · exact (Mirrors.mismatch _ _ _).bind fun _ => .pure _

theorem declarePattern_mirrors (scrutinee : Ty) (pattern : ArmPattern) (span : Span) :
    Mirrors ρ excused (Check.declarePattern scrutinee pattern span)
      (Check.declarePattern scrutinee pattern span) := by
  have hn : Mirrors ρ excused (Check.declarePattern scrutinee .none span)
      (Check.declarePattern scrutinee .none span) := by
    cases scrutinee with
    | option _ => exact .pure ()
    | unknown => exact .pure ()
    | _ => exact .mismatch _ _ _
  cases pattern with
  | wildcard => exact .pure ()
  | none => exact hn
  | some name nameSpan =>
    rw [declarePattern_some]
    exact hn.bind fun _ => .declare _ _

theorem expectArity_mirrors (callee : Expr) (params received : Nat) (span : Span) :
    Mirrors ρ excused (Check.expectArity callee params received span)
      (Check.expectArity (callee.renumber ρ) params received span) := by
  unfold Check.expectArity
  rw [Expr.calleeName_renumber]
  exact .ite (.pure ()) (.report _ rfl)

/-- What is returned fits the innermost function, if there is one. -/
theorem returned_mirrors (ty : Ty) (span : Span) :
    Mirrors ρ excused
      (do if let some expected := (← get).expected then
            Check.expectAssignable ty expected span)
      (do if let some expected := (← get).expected then
            Check.expectAssignable ty expected span) := by
  refine .get fun s => ?_
  show Mirrors ρ excused _ (match s.expected with
    | some expected => Check.expectAssignable ty expected span
    | _ => pure PUnit.unit)
  cases s.expected with
  | none => exact .pure ()
  | some expected => exact .expectAssignable _ _ _

@[simp] theorem typed_renumber (e : Expr) (ty : Ty) :
    (e.renumber ρ).typed ty = (e.typed ty).renumber ρ := by
  rw [Expr.typed, Expr.node_renumber]
  rfl

end Steps

/-! ### Looking things up -/

/-- A second check sees registries that look alike, the same module under other numbers, and the same
bindings; and it excuses unknown classes if it is to. -/
structure CheckContext.Mirrors (ρ : Nat → Nat) (excused : Bool) (cx cx' : CheckContext) : Prop where
  alike : cx.registry.Alike cx'.registry
  path : cx'.module.path = cx.module.path
  imports : (cx'.registry.find? cx.module.path).map (·.resolvedImports) =
    (cx.registry.find? cx.module.path).map (·.resolvedImports)
  binding : ∀ node, cx'.names.binding? (ρ node) = cx.names.binding? node
  failed : cx'.module.importFailed = (cx.module.importFailed || excused)

section LookUps

variable {ρ : Nat → Nat} {excused : Bool} {cx cx' : CheckContext}

namespace CheckContext.Mirrors

theorem class? (h : cx.Mirrors ρ excused cx') (name : String) :
    (cx'.class? name).map seen = (cx.class? name).map seen := by
  unfold CheckContext.class?
  rw [h.path]
  exact h.alike.classDecl? h.imports name

theorem isSome_class? (h : cx.Mirrors ρ excused cx') (name : String) :
    (cx'.class? name).isSome = (cx.class? name).isSome := by
  have hc := congrArg Option.isSome (h.class? name)
  rwa [Option.isSome_map, Option.isSome_map] at hc

theorem mayUse (h : cx.Mirrors ρ excused cx') (isPublic : Bool) {owner owner' : Module}
    (ho : owner'.outline = owner.outline) :
    cx'.mayUse isPublic owner' = cx.mayUse isPublic owner := by
  rw [CheckContext.mayUse, CheckContext.mayUse, Module.path_eq_of_outline ho, h.path]

/-! #### What an expression names -/

theorem isBuiltin (h : cx.Mirrors ρ excused cx') : ∀ e : Expr,
    cx'.names.isBuiltin (e.renumber ρ) = cx.names.isBuiltin e
  | .ident node _ => by
    simp only [Expr.renumber, Names.isBuiltin, Node.renumber, h.binding]
  | .member _ object _ _ => h.isBuiltin object
  | .int _ _ | .float _ _ | .string _ _ | .bool _ _ | .interpolated _ _ | .this _ | .noneLit _
  | .someOf _ _ | .binary _ _ _ _ | .unary _ _ _ | .assign _ _ _ | .call _ _ _ | .index _ _ _
  | .new _ _ _ _ | .array _ _ | .lambda _ _ _ _ => rfl

theorem aliased? (h : cx.Mirrors ρ excused cx') (e : Expr) :
    cx'.names.aliased? (e.renumber ρ) = cx.names.aliased? e := by
  cases e with
  | ident node name => simp only [Expr.renumber, Names.aliased?, Node.renumber, h.binding]
  | _ => rfl

theorem intrinsic? (h : cx.Mirrors ρ excused cx') (e : Expr) :
    cx'.names.intrinsic? (e.renumber ρ) = cx.names.intrinsic? e := by
  cases e with
  | ident node name => simp only [Expr.renumber, Names.intrinsic?, Node.renumber, h.binding]
  | _ => rfl

theorem isClass (h : cx.Mirrors ρ excused cx') (e : Expr) :
    cx'.names.isClass cx'.registry (e.renumber ρ) = cx.names.isClass cx.registry e := by
  cases e with
  | ident node name => simp only [Expr.renumber, Names.isClass, Node.renumber, h.binding]
  | member node object name nameSpan =>
    simp only [Expr.renumber, Names.isClass, h.aliased?]
    cases cx.names.aliased? object with
    | none => rfl
    | some path =>
      have hs := h.alike.symbol? path name
      simp only [Option.bind_some]
      obtain ⟨hx, hx'⟩ | ⟨symbol, symbol', hx, hx', ho⟩ := cases_of_outline hs
      · rw [hx, hx']
      · rw [hx, hx']
        simp only [(Symbol.eq_of_outline ho).1]
  | _ => rfl

end CheckContext.Mirrors

/-! ### Steps that look something up -/

variable (h : cx.Mirrors ρ excused cx')
include h

/-- A class that is unknown is reported unless it is excused, and is then no fault that remains. -/
theorem undefinedClass_mirrors (name : String) (span : Span) :
    Mirrors ρ excused (cx.undefinedClass name span) (cx'.undefinedClass name span) := by
  unfold CheckContext.undefinedClass
  rw [h.failed]
  cases cx.module.importFailed with
  | true => exact .pure ()
  | false =>
    cases excused with
    | false =>
      refine ⟨fun _ => rfl, fun s => ?_⟩
      simp [Checker.mirror, Diagnostic.remains]
    | true =>
      refine ⟨fun _ => rfl, fun s => ?_⟩
      simp [Checker.mirror, Diagnostic.remains, Cause.isUndefinedClass]

theorem checkAnnotation_mirrors (ty : Ty) (span : Span) :
    Mirrors ρ excused (cx.checkAnnotation ty span) (cx'.checkAnnotation ty span) := by
  refine Mirrors.forM (fun name => ?_) ty.classNames
  rw [h.isSome_class?]
  exact .ite (.pure ()) (undefinedClass_mirrors h name span)

theorem declareParams_mirrors (params : List Param) :
    Mirrors ρ excused (cx.declareParams params) (cx'.declareParams params) := by
  refine Mirrors.forM (fun p => ?_) params
  exact (checkAnnotation_mirrors h p.ty p.span).bind fun _ => .declare _ _

theorem identTy_mirrors (node : Nat) (name : String) :
    Mirrors ρ excused (cx.identTy node name) (cx'.identTy (ρ node) name) := by
  unfold CheckContext.identTy
  rw [h.binding]
  cases cx.names.binding? node with
  | none => exact .pure _
  | some binding =>
    cases binding with
    | «variable» _ _ => exact .get fun _ => .pure _
    | function path idx =>
      dsimp only
      rw [map_eq_of_outline FunctionDecl.signature_outline (h.alike.functionAt? path idx)]
      exact .pure _
    | classAt path idx =>
      dsimp only
      rw [map_eq_of_outline (o := ClassDecl.outline) (g := fun c => Ty.named c.name)
        (fun _ => rfl) (h.alike.classAt? path idx)]
      exact .pure _
    | member path idx member =>
      dsimp only
      rw [map_eq_of_outline Member.ty_outline (h.alike.memberAt? path idx member)]
      exact .pure _
    | _ => exact .pure _

theorem moduleMemberTy_mirrors (path name : String) (span : Span) :
    Mirrors ρ excused (cx.moduleMemberTy path name span) (cx'.moduleMemberTy path name span) := by
  unfold CheckContext.moduleMemberTy
  obtain ⟨hm, hm'⟩ | ⟨m, m', hm, hm', ho⟩ := cases_of_outline (h.alike path)
  · rw [hm, hm']
    exact .pure _
  · have hs : (m'.symbol? name).map Symbol.outline = (m.symbol? name).map Symbol.outline := by
      rw [← m'.symbol?_outline, ← m.symbol?_outline, ho]
    have hf (idx : Nat) : (m'.decls.functions[idx]?).map FunctionDecl.signature =
        (m.decls.functions[idx]?).map FunctionDecl.signature := by
      refine map_eq_of_outline FunctionDecl.signature_outline ?_
      rw [← Declarations.functions_outline, ← Declarations.functions_outline]
      exact congrArg (fun m => m.decls.functions[idx]?) ho
    have hc (idx : Nat) : (m'.decls.classes[idx]?).map (fun c => Ty.named c.name) =
        (m.decls.classes[idx]?).map fun c => Ty.named c.name := by
      refine map_eq_of_outline (o := ClassDecl.outline) (fun _ => rfl) ?_
      rw [← Declarations.classes_outline, ← Declarations.classes_outline]
      exact congrArg (fun m => m.decls.classes[idx]?) ho
    rw [hm, hm']
    dsimp only
    obtain ⟨hx, hx'⟩ | ⟨symbol, symbol', hx, hx', hso⟩ := cases_of_outline hs
    · rw [hx, hx']
      exact (Mirrors.report _ rfl).bind fun _ => .pure _
    · obtain ⟨-, hp, hd⟩ := Symbol.eq_of_outline hso
      rw [hx, hx']
      dsimp only
      simp only [hp, hd, hf, hc, h.mayUse _ ho, Module.path_eq_of_outline ho]
      exact .reportUnless _ _ rfl

theorem classMemberTy_mirrors (className name : String) (fromClass : Bool) (span : Span) :
    Mirrors ρ excused (cx.classMemberTy className name fromClass span)
      (cx'.classMemberTy className name fromClass span) := by
  unfold CheckContext.classMemberTy
  obtain ⟨hx, hx'⟩ | ⟨⟨owner, decl⟩, ⟨owner', decl'⟩, hx, hx', hs⟩ :=
    cases_of_outline (h.class? className)
  · rw [hx, hx']
    exact (undefinedClass_mirrors h _ _).bind fun _ => .pure _
  · obtain ⟨ho, hd⟩ := Prod.mk.inj hs
    have hm : (decl'.member? name).map Member.outline = (decl.member? name).map Member.outline := by
      rw [← decl'.member?_outline, ← decl.member?_outline]
      exact congrArg (ClassDecl.member? · name) hd
    rw [hx, hx']
    dsimp only
    obtain ⟨hy, hy'⟩ | ⟨member, member', hy, hy', hmo⟩ := cases_of_outline hm
    · rw [hy, hy']
      exact (Mirrors.report _ rfl).bind fun _ => .pure _
    · obtain ⟨hp, hst, ht⟩ := Member.eq_of_outline hmo
      rw [hy, hy']
      dsimp only
      rw [hst, hp, ht, h.mayUse _ ho, Module.path_eq_of_outline ho]
      exact .ite ((Mirrors.report _ rfl).bind fun _ => .pure _) (.reportUnless _ _ rfl)

theorem valueMemberTy_mirrors (receiver : Ty) (name : String) (fromClass : Bool) (span : Span) :
    Mirrors ρ excused (cx.valueMemberTy receiver name fromClass span)
      (cx'.valueMemberTy receiver name fromClass span) := by
  unfold CheckContext.valueMemberTy
  split
  · exact classMemberTy_mirrors h _ name fromClass span
  · exact .pure _
  · split
    · exact .pure _
    · exact (Mirrors.report _ rfl).bind fun _ => .pure _

theorem instanceTy_mirrors (className : String) (span : Span) :
    Mirrors ρ excused (cx.instanceTy className span) (cx'.instanceTy className span) := by
  unfold CheckContext.instanceTy
  obtain ⟨hx, hx'⟩ | ⟨⟨owner, decl⟩, ⟨owner', decl'⟩, hx, hx', hs⟩ :=
    cases_of_outline (h.class? className)
  · rw [hx, hx']
    exact (undefinedClass_mirrors h _ _).bind fun _ => .pure _
  · obtain ⟨ho, hd⟩ := Prod.mk.inj hs
    have hp : decl'.isPublic = decl.isPublic := by
      have hp := congrArg ClassDecl.isPublic hd
      exact hp
    rw [hx, hx']
    dsimp only
    rw [hp, h.mayUse _ ho, Module.path_eq_of_outline ho]
    exact .reportUnless _ _ rfl

end LookUps

/-! ### The check of a piece -/

section Walk

variable {ρ : Nat → Nat} {excused : Bool} {cx cx' : CheckContext}

theorem appliedTy_mirrors {callee : Expr} {args : List Expr} (span : Span)
    (ha : ∀ params, Mirrors ρ excused (checkArgs cx params args)
      (checkArgs cx' params (renumberExprs ρ args))) (calleeTy : Ty) :
    Mirrors ρ excused (cx.appliedTy callee args span calleeTy)
      (cx'.appliedTy (callee.renumber ρ) (renumberExprs ρ args) span calleeTy) := by
  unfold CheckContext.appliedTy
  split
  · rw [length_renumberExprs]
    refine (expectArity_mirrors _ _ _ _).bind fun _ => ?_
    exact (ha _).bind fun _ => .pure _
  · exact (ha []).bind fun _ => .pure _
  · rw [Expr.span_renumber]
    exact (ha []).bind fun _ => (Mirrors.report _ rfl).bind fun _ => .pure _

mutual

/-- The check of an expression is mirrored by the check of the expression with other numbers. -/
theorem checkExpr_mirrors (h : cx.Mirrors ρ excused cx') : ∀ e : Expr,
    Mirrors ρ excused (checkExpr cx e) (checkExpr cx' (e.renumber ρ))
  | .int node _ | .float node _ | .string node _ | .bool node _ | .noneLit node =>
    (Mirrors.record node _).bind fun _ => .pure _
  | .this node => .get fun _ => (Mirrors.record node _).bind fun _ => .pure _
  | .ident node name => (identTy_mirrors h node.id name).recorded node
  | .interpolated node parts =>
    (checkParts_mirrors h parts).bind fun _ => (Mirrors.record node _).bind fun _ => .pure _
  | .someOf node inner =>
    (checkExpr_mirrors h inner).bind fun _ => (Mirrors.record node _).bind fun _ => .pure _
  | .binary node op left right => by
    rw [Expr.renumber, checkExpr, checkExpr]
    refine (checkExpr_mirrors h left).bind fun leftTy => ?_
    refine (checkExpr_mirrors h right).bind fun rightTy => ?_
    rw [typed_renumber, typed_renumber]
    exact (binaryTy_mirrors op _ _ node.span).recorded node
  | .unary node op operand => by
    rw [Expr.renumber, checkExpr, checkExpr]
    refine (checkExpr_mirrors h operand).bind fun operandTy => ?_
    rw [typed_renumber]
    exact (unaryTy_mirrors op _).recorded node
  | .assign node target value => by
    rw [Expr.renumber, checkExpr, checkExpr, Expr.span_renumber]
    refine (checkExpr_mirrors h target).bind fun targetTy => ?_
    refine (checkExpr_mirrors h value).bind fun valueTy => ?_
    refine (Mirrors.expectAssignable _ _ _).bind fun _ => ?_
    exact (Mirrors.record node _).bind fun _ => .pure _
  | .call node callee args => by
    rw [Expr.renumber]
    have hi := h.intrinsic? callee
    cases hc : cx.names.intrinsic? callee with
    | some name =>
      rw [hc] at hi
      rw [checkExpr_call_intrinsic cx hc, checkExpr_call_intrinsic cx' hi, Expr.node_renumber]
      refine (Mirrors.record callee.node _).bind fun _ => ?_
      refine (checkArgs_mirrors h args []).bind fun _ => ?_
      exact (Mirrors.record node _).bind fun _ => .pure _
    | none =>
      rw [hc] at hi
      rw [checkExpr_call cx hc, checkExpr_call cx' hi]
      refine (checkExpr_mirrors h callee).bind fun calleeTy => ?_
      exact (appliedTy_mirrors node.span (checkArgs_mirrors h args) calleeTy).recorded node
  | .member node object name nameSpan => by
    rw [Expr.renumber]
    have hb' := h.isBuiltin object
    have ha' := h.aliased? object
    cases hb : cx.names.isBuiltin object with
    | true =>
      rw [hb] at hb'
      rw [checkExpr_member_builtin cx hb, checkExpr_member_builtin cx' hb', Expr.node_renumber]
      refine (Mirrors.record object.node _).bind fun _ => ?_
      exact (Mirrors.record node _).bind fun _ => .pure _
    | false =>
      rw [hb] at hb'
      cases ha : cx.names.aliased? object with
      | some path =>
        rw [ha] at ha'
        rw [checkExpr_member_aliased cx hb ha, checkExpr_member_aliased cx' hb' ha',
          Expr.node_renumber]
        refine (Mirrors.record object.node _).bind fun _ => ?_
        exact (moduleMemberTy_mirrors h path name nameSpan).recorded node
      | none =>
        rw [ha] at ha'
        rw [checkExpr_member_value cx hb ha, checkExpr_member_value cx' hb' ha', h.isClass]
        refine (checkExpr_mirrors h object).bind fun objectTy => ?_
        exact (valueMemberTy_mirrors h objectTy name _ nameSpan).recorded node
  | .index node object index => by
    rw [Expr.renumber, checkExpr, checkExpr, Expr.span_renumber]
    refine (checkExpr_mirrors h object).bind fun objectTy => ?_
    refine (checkExpr_mirrors h index).bind fun indexTy => ?_
    refine (Mirrors.expectAssignable _ _ _).bind fun _ => ?_
    rw [typed_renumber]
    exact (indexedTy_mirrors _).recorded node
  | .new node className classSpan args =>
    (checkArgs_mirrors h args []).bind fun _ =>
      (instanceTy_mirrors h className classSpan).recorded node
  | .array node items =>
    (checkItems_mirrors h items .unknown).bind fun _ =>
      (Mirrors.record node _).bind fun _ => .pure _
  | .lambda node params ret body => by
    have hb := (declareParams_mirrors h params).bind fun _ => checkBlock_mirrors h body
    exact (hb.inScope.returning ret).bind fun _ => (Mirrors.record node _).bind fun _ => .pure _

theorem checkArgs_mirrors (h : cx.Mirrors ρ excused cx') : ∀ (args : List Expr) (params : List Ty),
    Mirrors ρ excused (checkArgs cx params args) (checkArgs cx' params (renumberExprs ρ args))
  | [], [] | [], _ :: _ => .pure ()
  | arg :: args, [] =>
    (checkExpr_mirrors h arg).discard.bind fun _ => checkArgs_mirrors h args []
  | arg :: args, param :: params => by
    rw [renumberExprs, checkArgs, checkArgs, Expr.span_renumber]
    refine (checkExpr_mirrors h arg).bind fun ty => ?_
    exact (Mirrors.expectAssignable _ _ _).bind fun _ => checkArgs_mirrors h args params

theorem checkItems_mirrors (h : cx.Mirrors ρ excused cx') : ∀ (items : List Expr) (common : Ty),
    Mirrors ρ excused (checkItems cx common items) (checkItems cx' common (renumberExprs ρ items))
  | [], common => .pure common
  | item :: items, common => by
    rw [renumberExprs, checkItems, checkItems]
    refine (checkExpr_mirrors h item).bind fun ty => ?_
    rw [typed_renumber]
    exact (joinElement_mirrors common _).bind fun common => checkItems_mirrors h items common

theorem checkParts_mirrors (h : cx.Mirrors ρ excused cx') : ∀ parts : List Part,
    Mirrors ρ excused (checkParts cx parts) (checkParts cx' (renumberParts ρ parts))
  | [] => .pure ()
  | .text _ :: parts => checkParts_mirrors h parts
  | .hole e :: parts => (checkExpr_mirrors h e).discard.bind fun _ => checkParts_mirrors h parts

theorem checkStmt_mirrors (h : cx.Mirrors ρ excused cx') : ∀ stmt : Stmt,
    Mirrors ρ excused (checkStmt cx stmt) (checkStmt cx' (stmt.renumber ρ))
  | .letStmt name _ none value _ _ => (checkExpr_mirrors h value).bind fun _ => .declare name _
  | .letStmt name _ (some ty) value nameSpan _ => by
    rw [Stmt.renumber, checkStmt, checkStmt, Expr.span_renumber]
    refine (checkExpr_mirrors h value).bind fun valueTy => ?_
    refine (checkAnnotation_mirrors h ty nameSpan).bind fun _ => ?_
    exact (Mirrors.expectAssignable _ _ _).bind fun _ => .declare name ty
  | .returnStmt none span => returned_mirrors .void span
  | .returnStmt (some value) _ => by
    rw [Stmt.renumber, checkStmt, checkStmt, Expr.span_renumber]
    exact (checkExpr_mirrors h value).bind fun ty => returned_mirrors ty value.span
  | .ifStmt condition body none _ | .whileStmt condition body _ => by
    rw [Stmt.renumber, checkStmt, checkStmt, Expr.span_renumber]
    refine (checkExpr_mirrors h condition).bind fun ty => ?_
    exact (Mirrors.expectAssignable _ _ _).bind fun _ => checkBlock_mirrors h body
  | .ifStmt condition body (some otherwise) _ => by
    rw [Stmt.renumber, checkStmt, checkStmt, Expr.span_renumber]
    refine (checkExpr_mirrors h condition).bind fun ty => ?_
    refine (Mirrors.expectAssignable _ _ _).bind fun _ => ?_
    exact (checkBlock_mirrors h body).bind fun _ => checkStmt_mirrors h otherwise
  | .forStmt name _ iterable body _ => by
    rw [Stmt.renumber, checkStmt, checkStmt]
    refine (checkExpr_mirrors h iterable).bind fun ty => ?_
    rw [typed_renumber]
    refine (elementTy_mirrors _).bind fun element => ?_
    exact ((Mirrors.declare name element).bind fun _ => checkBlock_mirrors h body).inScope
  | .matchStmt scrutinee arms _ =>
    (checkExpr_mirrors h scrutinee).bind fun ty => checkArms_mirrors h arms ty
  | .block body => checkBlock_mirrors h body
  | .expr value => (checkExpr_mirrors h value).discard

theorem checkStmts_mirrors (h : cx.Mirrors ρ excused cx') : ∀ stmts : List Stmt,
    Mirrors ρ excused (checkStmts cx stmts) (checkStmts cx' (renumberStmts ρ stmts))
  | [] => .pure ()
  | stmt :: stmts => (checkStmt_mirrors h stmt).bind fun _ => checkStmts_mirrors h stmts

theorem checkBlock_mirrors (h : cx.Mirrors ρ excused cx') : ∀ body : Block,
    Mirrors ρ excused (checkBlock cx body) (checkBlock cx' (body.renumber ρ))
  | ⟨stmts, _⟩ => (checkStmts_mirrors h stmts).inScope

theorem checkArms_mirrors (h : cx.Mirrors ρ excused cx') : ∀ (arms : List Arm) (scrutinee : Ty),
    Mirrors ρ excused (checkArms cx scrutinee arms) (checkArms cx' scrutinee (renumberArms ρ arms))
  | [], _ => .pure ()
  | ⟨pattern, body, span⟩ :: arms, scrutinee => by
    refine Mirrors.bind (Mirrors.inScope ?_) fun _ => checkArms_mirrors h arms scrutinee
    exact (declarePattern_mirrors scrutinee pattern span).bind fun _ => checkBlock_mirrors h body

end

theorem checkFunction_mirrors (h : cx.Mirrors ρ excused cx') (f : FunctionDecl) :
    Mirrors ρ excused (checkFunction cx f) (checkFunction cx' (f.renumber ρ)) := by
  have hb := (declareParams_mirrors h f.params).bind fun _ => checkBlock_mirrors h f.body
  exact ((checkAnnotation_mirrors h f.ret f.nameSpan).bind fun _ => hb.inScope).returning f.ret

theorem checkField_mirrors (h : cx.Mirrors ρ excused cx') (f : FieldDecl) :
    Mirrors ρ excused (checkField cx f) (checkField cx' (f.renumber ρ)) := by
  refine (checkAnnotation_mirrors h f.ty f.span).bind fun _ => ?_
  rw [FieldDecl.renumber]
  cases f.initial with
  | none => exact .pure ()
  | some value =>
    dsimp only [Option.map_some]
    rw [Expr.span_renumber]
    exact (checkExpr_mirrors h value).bind fun ty => .expectAssignable _ _ _

theorem checkClass_mirrors (h : cx.Mirrors ρ excused cx') (c : ClassDecl) :
    Mirrors ρ excused (checkClass cx c) (checkClass cx' (c.renumber ρ)) := by
  have hf := Mirrors.forM_map (checkField_mirrors h) c.fields
  have hm := Mirrors.forM_map (checkFunction_mirrors h) c.methods
  exact (hf.bind fun _ => hm).inClass c.name

/-- The check of a module is mirrored by the check of the module with other numbers. -/
theorem checkModule_mirrors (h : cx.Mirrors ρ excused cx')
    (hc : cx'.module.decls.classes = cx.module.decls.classes.map (·.renumber ρ))
    (hf : cx'.module.decls.functions = cx.module.decls.functions.map (·.renumber ρ)) :
    Mirrors ρ excused (checkModule cx) (checkModule cx') := by
  have hcs := Mirrors.forM_map (checkClass_mirrors h) cx.module.decls.classes
  have hfs := Mirrors.forM_map (checkFunction_mirrors h) cx.module.decls.functions
  unfold checkModule
  rw [hc, hf]
  exact (hcs.bind fun _ => hfs).inScope

end Walk

/-! ### The types of a module -/

section

variable {ρ : Nat → Nat}

/-- Where no two numbers become one, a renumbered identifier has its binding. -/
theorem Names.binding?_renumber (hρ : Function.Injective ρ) (n : Names) (node : Nat) :
    (n.renumber ρ).binding? (ρ node) = n.binding? node := by
  have hn : (fun r : Reference => (r.renumber ρ).node == ρ node) = fun r => r.node == node := by
    funext r
    rw [Bool.eq_iff_iff, beq_iff_eq, beq_iff_eq]
    exact hρ.eq_iff
  have hb := congrArg (fun p => ((n.references.find? p).map (Reference.renumber ρ)).map (·.binding)) hn
  unfold binding? renumber
  rw [Array.find?_map]
  refine hb.trans ?_
  rw [Option.map_map]
  rfl

/-- A fault is met also where nothing is excused. -/
theorem Diagnostic.remains_false (d : Diagnostic) : d.remains false = true := by
  rw [remains, Bool.false_and, Bool.not_false]

/-- What a check of a module whose check is mirrored finds. -/
theorem Registry.check_of_mirrors {r r' : Registry} {path : String} {m m' : Module}
    {excused : Bool} (hm : r.find? path = some m) (hm' : r'.find? path = some m')
    (h : (r.checkContext path m).Mirrors ρ excused (r'.checkContext path m'))
    (hc : m'.decls.classes = m.decls.classes.map (·.renumber ρ))
    (hf : m'.decls.functions = m.decls.functions.map (·.renumber ρ)) :
    r'.check (r'.names path) =
      { errors := (r.check (r.names path)).errors.filter (·.remains excused)
        nodes := (r.check (r.names path)).nodes.map (·.renumber ρ) } := by
  have hs := (checkModule_mirrors h hc hf).after {}
  have h0 : ({} : Checker).mirror ρ excused = {} := by
    simp [Checker.mirror]
  rw [h0] at hs
  rw [check_eq hm, check_eq hm', hs]
  simp [Checker.mirror]

/-- A module is checked alike in registries that look alike. -/
theorem Registry.Alike.check {r r' : Registry} (h : r.Alike r') (hρ : Function.Injective ρ)
    {path : String} (hm : r'.find? path = (r.find? path).map (Module.renumber ρ)) :
    r'.check (r'.names path) = (r.check (r.names path)).renumber ρ := by
  cases hf : r.find? path with
  | none =>
    rw [hf] at hm
    simp [Registry.check, names_module, hf, hm, Types.renumber]
  | some m =>
    have hp : m.path = path := path_of_find? hf
    have hn := h.names hm
    rw [hf, Option.map_some] at hm
    have hc : (r.checkContext path m).Mirrors ρ false (r'.checkContext path (m.renumber ρ)) := by
      refine ⟨h, rfl, ?_, fun node => ?_, (Bool.or_false _).symm⟩
      · show (r'.find? m.path).map _ = (r.find? m.path).map _
        rw [hp, hf, hm]
        rfl
      · show (r'.names path).binding? _ = (r.names path).binding? _
        rw [hn]
        exact Names.binding?_renumber hρ _ node
    rw [Registry.check_of_mirrors hf hm hc rfl rfl, Types.renumber,
      List.filter_eq_self.2 fun d _ => d.remains_false]

end

end MgLang
