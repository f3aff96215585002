import MgLang.Proofs.Lexical
import MgLang.Typing.Check
/-!
# A type check as a run

What checking a piece of a module does to the state of the check. It keeps what it knows about where
it stands, up to the variables that a statement adds to the innermost scope (`checkExpr_keeps`,
`checkStmt_steps`). It only ever adds faults, and it gives types to expressions within the piece, to
each at most once and to the piece itself at last (`checkExpr_records`).

So a table of types that a check has filled gives every expression in it one type
(`typeOf?_of_mem`).
-/

namespace MgLang

open ScopeStack (onto)

namespace Checker

/-- One more scope is open. -/
def push (s : Checker) : Checker :=
  { s with locals := s.locals.push }

/-- The innermost scope is closed. -/
def pop (s : Checker) : Checker :=
  { s with locals := s.locals.pop }

end Checker

namespace Check

variable {α β : Type}

/-- What a step of a type check results in. -/
def result (x : Check α) (s : Checker) : α :=
  (x.run s).1

/-- The state after a step of a type check. -/
def after (x : Check α) (s : Checker) : Checker :=
  (x.run s).2

variable (s : Checker)

@[simp] theorem result_pure (a : α) : (pure a : Check α).result s = a := rfl

@[simp] theorem after_pure (a : α) : (pure a : Check α).after s = s := rfl

@[simp] theorem result_bind (x : Check α) (f : α → Check β) :
    (x >>= f).result s = (f (x.result s)).result (x.after s) := rfl

@[simp] theorem after_bind (x : Check α) (f : α → Check β) :
    (x >>= f).after s = (f (x.result s)).after (x.after s) := rfl

@[simp] theorem after_map (f : α → β) (x : Check α) : (f <$> x).after s = x.after s := rfl

@[simp] theorem result_get : (get : Check Checker).result s = s := rfl

@[simp] theorem after_get : (get : Check Checker).after s = s := rfl

@[simp] theorem after_record (node : Node) (ty : Ty) :
    (record node ty).after s = { s with types := s.types.push ⟨node, ty⟩ } := rfl

@[simp] theorem after_report (cause : Cause) (span : Span) :
    (report cause span).after s = { s with errors := s.errors.push ⟨cause, span⟩ } := rfl

@[simp] theorem after_declare (name : String) (ty : Ty) :
    (declare name ty).after s = { s with locals := s.locals.declare name ty } := rfl

end Check

namespace Names

variable {names : Names} {e : Expr} {x : String}

/-- Only an identifier names an intrinsic function. -/
theorem exists_ident_of_intrinsic? (h : names.intrinsic? e = some x) :
    ∃ node name, e = .ident node name := by
  cases e with
  | ident node name => exact ⟨node, name, rfl⟩
  | _ => simp [intrinsic?] at h

/-- Only an identifier names a module. -/
theorem exists_ident_of_aliased? (h : names.aliased? e = some x) :
    ∃ node name, e = .ident node name := by
  cases e with
  | ident node name => exact ⟨node, name, rfl⟩
  | _ => simp [aliased?] at h

/-- What names a module is not built in. -/
theorem isBuiltin_of_aliased? (h : names.aliased? e = some x) : names.isBuiltin e = false := by
  obtain ⟨node, name, rfl⟩ := exists_ident_of_aliased? h
  simp only [aliased?] at h
  split at h
  · next path hb =>
    split at h
    · cases h
    · next hn => simpa [isBuiltin, hb] using hn
  · cases h

end Names

/-! ### What checking a piece is made of -/

/-- Reports a call with the wrong number of arguments. -/
def Check.expectArity (callee : Expr) (params received : Nat) (span : Span) : Check Unit :=
  if params = received then pure ()
  else report (.arityMismatch callee.calleeName params received) span

/-- The type of a call, from the type of what is called. The arguments are checked. -/
def CheckContext.appliedTy (cx : CheckContext) (callee : Expr) (args : List Expr) (span : Span)
    (calleeTy : Ty) : Check Ty :=
  match calleeTy with
  | .fn params ret => do
    Check.expectArity callee params.length args.length span
    checkArgs cx params args
    return ret
  | .unknown => do
    checkArgs cx [] args
    return .unknown
  | other => do
    checkArgs cx [] args
    Check.report (.typeMismatch "function" other.text) callee.span
    return .unknown

/-- The type of an intrinsic call. -/
def intrinsicTy (name : String) : Ty :=
  if name = "readLine" then .string else .void

/-- Checks a condition. -/
def checkCondition (cx : CheckContext) (condition : Expr) : Check Unit := do
  Check.expectAssignable (← checkExpr cx condition) .bool condition.span

/-- Checks what is done if a condition holds. -/
def checkBranch (cx : CheckContext) (condition : Expr) (body : Block) : Check Unit := do
  checkCondition cx condition
  checkBlock cx body

/-- Checks what a `for` runs over, and finds the type of its elements. -/
def checkIterable (cx : CheckContext) (iterable : Expr) : Check Ty := do
  Check.elementTy (iterable.typed (← checkExpr cx iterable))

/-- The type of what an optional value holds. -/
def Ty.present : Ty → Ty
  | .option inner => inner
  | _ => .unknown

section Equations

variable (cx : CheckContext)

theorem checkExpr_call_intrinsic {callee : Expr} {name : String}
    (h : cx.names.intrinsic? callee = some name) (node : Node) (args : List Expr) :
    checkExpr cx (.call node callee args) = (do
      Check.record callee.node .unknown
      checkArgs cx [] args
      Check.record node (intrinsicTy name)
      return intrinsicTy name) := by
  simp only [checkExpr, h]
  rfl

theorem checkExpr_call {callee : Expr} (h : cx.names.intrinsic? callee = none) (node : Node)
    (args : List Expr) :
    checkExpr cx (.call node callee args) = (do
      let ty ← cx.appliedTy callee args node.span (← checkExpr cx callee)
      Check.record node ty
      return ty) := by
  simp only [checkExpr, h]
  refine congrArg _ (funext fun calleeTy => ?_)
  cases calleeTy with
  | fn params ret =>
    by_cases hl : params.length = args.length
    · simp only [CheckContext.appliedTy, Check.expectArity, if_pos hl]
      rfl
    · simp only [CheckContext.appliedTy, Check.expectArity, if_neg hl]
      rfl
  | _ => rfl

theorem checkExpr_member_builtin {object : Expr} (h : cx.names.isBuiltin object = true)
    (node : Node) (name : String) (nameSpan : Span) :
    checkExpr cx (.member node object name nameSpan) = (do
      Check.record object.node .unknown
      Check.record node .unknown
      return .unknown) := by
  simp only [checkExpr, h, if_true]
  rfl

theorem checkExpr_member_aliased {object : Expr} {path : String}
    (h : cx.names.isBuiltin object = false) (ha : cx.names.aliased? object = some path)
    (node : Node) (name : String) (nameSpan : Span) :
    checkExpr cx (.member node object name nameSpan) = (do
      Check.record object.node .unknown
      let ty ← cx.moduleMemberTy path name nameSpan
      Check.record node ty
      return ty) := by
  simp only [checkExpr, h, ha, Bool.false_eq_true, if_false]

theorem checkExpr_member_value {object : Expr} (h : cx.names.isBuiltin object = false)
    (ha : cx.names.aliased? object = none) (node : Node) (name : String) (nameSpan : Span) :
    checkExpr cx (.member node object name nameSpan) = (do
      let objectTy ← checkExpr cx object
      let ty ← cx.valueMemberTy objectTy name (cx.names.isClass cx.registry object) nameSpan
      Check.record node ty
      return ty) := by
  simp only [checkExpr, h, ha, Bool.false_eq_true, if_false]


theorem declarePattern_some (scrutinee : Ty) (name : String) (nameSpan span : Span) :
    Check.declarePattern scrutinee (.some name nameSpan) span = (do
      Check.declarePattern scrutinee .none span
      Check.declare name scrutinee.present) := by
  cases scrutinee <;> rfl

end Equations

/-! ### Variables with their types -/

/-- A variable, with the place of its declaration and the type that it gets there. -/
structure Local where
  name : String
  span : Span
  ty : Ty
deriving DecidableEq, Repr

namespace Local

/-- The variable as a type check keeps it. -/
def slot (l : Local) : String × Ty :=
  (l.name, l.ty)

/-- The variable as an environment keeps it. -/
def entry (l : Local) : String × Binding :=
  (l.name, .variable l.name l.span)

end Local

/-- The variables that parameters declare. The last one of a name counts. -/
def paramLocals (params : List Param) : List Local :=
  (params.map fun p => ⟨p.name, p.span, p.ty⟩).reverse

/-- The variables that the pattern of an arm declares, if values of a type are matched. -/
def ArmPattern.locals (scrutinee : Ty) : ArmPattern → List Local
  | .some name span => [⟨name, span, scrutinee.present⟩]
  | .none | .wildcard => []

/-- The variables that a statement declares for those after it, if its check starts in a state. -/
def Stmt.locals (cx : CheckContext) (s : Checker) : Stmt → List Local
  | .letStmt name _ none value nameSpan _ => [⟨name, nameSpan, (checkExpr cx value).result s⟩]
  | .letStmt name _ (some ty) _ nameSpan _ => [⟨name, nameSpan, ty⟩]
  | .ifStmt condition body (some otherwise) _ =>
    otherwise.locals cx ((checkBranch cx condition body).after s)
  | _ => []

theorem map_entry_paramLocals (params : List Param) :
    (paramLocals params).map Local.entry = paramEnv params := by
  simp [paramLocals, paramEnv, Local.entry, Function.comp_def]

theorem ArmPattern.map_entry_locals (scrutinee : Ty) (p : ArmPattern) :
    (p.locals scrutinee).map Local.entry = p.declares := by
  cases p <;> rfl

theorem Stmt.map_entry_locals (cx : CheckContext) : ∀ (stmt : Stmt) (s : Checker),
    (stmt.locals cx s).map Local.entry = stmt.declares
  | .letStmt _ _ none _ _ _, _ | .letStmt _ _ (some _) _ _ _, _ => rfl
  | .ifStmt condition body (some otherwise) _, s =>
    otherwise.map_entry_locals cx ((checkBranch cx condition body).after s)
  | .ifStmt _ _ none _, _ | .returnStmt _ _, _ | .whileStmt _ _ _, _ | .forStmt _ _ _ _ _, _
  | .matchStmt _ _ _, _ | .block _, _ | .expr _, _ => rfl

/-! ### What a step adds -/

/-- A type check has come from one state to another: variables are added to the innermost scope,
faults to the faults, and types of some of the given expressions, in their order. -/
structure Checker.Steps (ls : List Local) (ns : List Node) (s s' : Checker) : Prop where
  frames : s'.locals.frames = onto (ls.map Local.slot) s.locals.frames
  imports : s'.locals.imports = s.locals.imports
  maxDepth : s.locals.maxDepth ≤ s'.locals.maxDepth
  expected : s'.expected = s.expected
  enclosing : s'.enclosing = s.enclosing
  errors : s.errors.toList <+: s'.errors.toList
  types : ∃ ts, s'.types.toList = s.types.toList ++ ts ∧ (ts.map (·.node)).Sublist ns

namespace Checker.Steps

variable {ls ls' : List Local} {ns ns' : List Node} {s s' s'' : Checker}

theorem refl (s : Checker) : Steps [] [] s s :=
  ⟨by simp, rfl, Nat.le_refl _, rfl, rfl, List.prefix_refl _, [], by simp⟩

theorem trans (h : Steps ls ns s s') (h' : Steps ls' ns' s' s'') :
    Steps (ls' ++ ls) (ns ++ ns') s s'' := by
  obtain ⟨ts, ht, hn⟩ := h.types
  obtain ⟨ts', ht', hn'⟩ := h'.types
  refine ⟨?_, h'.imports.trans h.imports, Nat.le_trans h.maxDepth h'.maxDepth,
    h'.expected.trans h.expected, h'.enclosing.trans h.enclosing, h.errors.trans h'.errors,
    ts ++ ts', ?_, ?_⟩
  · rw [h'.frames, h.frames, ScopeStack.onto_onto, List.map_append]
  · rw [ht', ht, List.append_assoc]
  · rw [List.map_append]
    exact hn.append hn'

theorem mono (h : Steps ls ns s s') (hn : ns.Sublist ns') : Steps ls ns' s s' := by
  obtain ⟨ts, ht, hs⟩ := h.types
  exact ⟨h.frames, h.imports, h.maxDepth, h.expected, h.enclosing, h.errors, ts, ht, hs.trans hn⟩

theorem flatten (h : Steps ls ns s s') (ho : s.locals.frames ≠ []) :
    s'.locals.frames.flatten = ls.map Local.slot ++ s.locals.frames.flatten := by
  rw [h.frames, ScopeStack.flatten_onto _ ho]

theorem open_scope (h : Steps ls ns s s') (ho : s.locals.frames ≠ []) :
    s'.locals.frames ≠ [] := by
  rw [h.frames]
  exact ScopeStack.onto_ne_nil _ ho

/-- A type that has been found stays in the table. -/
theorem types_subset (h : Steps ls ns s s') {t : TypedNode} (ht : t ∈ s.types.toList) :
    t ∈ s'.types.toList := by
  obtain ⟨ts, he, -⟩ := h.types
  rw [he]
  exact List.mem_append_left _ ht

end Checker.Steps

namespace Check

open Checker (Steps)

variable {α β : Type} {ns ns' : List Node}

/-- The step leaves the open scopes as they are. -/
def Keeps (x : Check α) (ns : List Node) : Prop :=
  ∀ s, Steps [] ns s (x.after s)

/-- The step adds to the innermost scope at most. -/
def Adds (x : Check α) (ns : List Node) : Prop :=
  ∀ s, ∃ ls, Steps ls ns s (x.after s)

theorem Keeps.adds {x : Check α} (h : Keeps x ns) : Adds x ns :=
  fun s => ⟨[], h s⟩

theorem Keeps.mono {x : Check α} (h : Keeps x ns) (hn : ns.Sublist ns') : Keeps x ns' :=
  fun s => (h s).mono hn

theorem Keeps.pure (a : α) : Keeps (pure a) [] :=
  fun s => .refl s

theorem Keeps.bind {x : Check α} {f : α → Check β} (hx : Keeps x ns) (hf : ∀ a, Keeps (f a) ns') :
    Keeps (x >>= f) (ns ++ ns') :=
  fun s => (hx s).trans (hf _ _)

/-- A step that gives types to no expression, before another one. -/
theorem Keeps.after {x : Check α} {f : α → Check β} (hf : ∀ a, Keeps (f a) ns) (hx : Keeps x []) :
    Keeps (x >>= f) ns :=
  hx.bind hf

/-- A step that gives types to no expression, behind another one. -/
theorem Keeps.before {x : Check α} {f : α → Check β} (hx : Keeps x ns) (hf : ∀ a, Keeps (f a) []) :
    Keeps (x >>= f) ns :=
  fun s => ((hx s).trans (hf _ _)).mono (by simp)

theorem Adds.bind {x : Check α} {f : α → Check β} (hx : Adds x ns) (hf : ∀ a, Adds (f a) ns') :
    Adds (x >>= f) (ns ++ ns') := by
  intro s
  obtain ⟨ls, hs⟩ := hx s
  obtain ⟨ls', hs'⟩ := hf (x.result s) (x.after s)
  exact ⟨ls' ++ ls, hs.trans hs'⟩

/-- A step that only declares variables, before another one. -/
theorem Adds.declaring {x : Check α} {f : α → Check β} (hf : ∀ a, Keeps (f a) ns)
    (hx : Adds x []) : Adds (x >>= f) ns :=
  hx.bind fun a => (hf a).adds

theorem Keeps.report (cause : Cause) (span : Span) : Keeps (report cause span) [] :=
  fun s => ⟨by simp, rfl, Nat.le_refl _, rfl, rfl, by simp, [], by simp⟩

theorem Keeps.record (node : Node) (ty : Ty) : Keeps (record node ty) [node] :=
  fun s => ⟨by simp, rfl, Nat.le_refl _, rfl, rfl, by simp, [⟨node, ty⟩], by simp⟩

theorem Keeps.get : Keeps get [] :=
  fun s => .refl s

theorem Keeps.discard {x : Check α} (h : Keeps x ns) : Keeps (discard x) ns :=
  h

theorem Keeps.ite {p : Prop} [Decidable p] {x y : Check α} (hx : Keeps x ns) (hy : Keeps y ns) :
    Keeps (if p then x else y) ns := by
  by_cases h : p
  · rw [if_pos h]
    exact hx
  · rw [if_neg h]
    exact hy

theorem Keeps.expectAssignable (received expected : Ty) (span : Span) :
    Keeps (expectAssignable received expected span) [] :=
  .ite (.pure ()) (.report _ _)

/-- Behind a step, the type of an expression is recorded. -/
theorem Keeps.recorded {x : Check Ty} (h : Keeps x ns) (node : Node) :
    Keeps (x >>= fun ty => Check.record node ty >>= fun _ => Pure.pure ty) (ns ++ [node]) :=
  h.bind fun ty => (Keeps.record node ty).before fun _ => .pure ty

theorem Keeps.inScope {x : Check α} (h : Adds x ns) : Keeps (inScope x) ns := by
  intro s
  obtain ⟨ls, hs⟩ := h s.push
  have hdepth : s.locals.maxDepth ≤ (x.after s.push).locals.maxDepth :=
    Nat.le_trans (Nat.le_max_left _ _) hs.maxDepth
  refine ⟨?_, hs.imports, hdepth, hs.expected, hs.enclosing, hs.errors, hs.types⟩
  show ((x.after s.push).locals.frames).tail = _
  rw [hs.frames, ScopeStack.tail_onto]
  simp [Checker.push, ScopeStack.push]

theorem Keeps.returning {x : Check α} (h : Keeps x ns) (ty : Ty) : Keeps (returning ty x) ns := by
  intro s
  have hs := h { s with expected := some ty }
  exact ⟨hs.frames, hs.imports, hs.maxDepth, rfl, hs.enclosing, hs.errors, hs.types⟩

theorem Keeps.inClass {x : Check α} (h : Keeps x ns) (name : String) :
    Keeps (inClass name x) ns := by
  intro s
  have hs := h { s with enclosing := some name }
  exact ⟨hs.frames, hs.imports, hs.maxDepth, hs.expected, rfl, hs.errors, hs.types⟩

theorem Keeps.forM {f : α → Check PUnit} {g : α → List Node} (h : ∀ a, Keeps (f a) (g a)) :
    ∀ as : List α, Keeps (as.forM f) (as.flatMap g)
  | [] => .pure _
  | a :: as => (h a).bind fun _ => Keeps.forM h as

theorem declare_steps (name : String) (span : Span) (ty : Ty) (s : Checker) :
    Steps [⟨name, span, ty⟩] [] s ((declare name ty).after s) :=
  ⟨ScopeStack.frames_declare _ _ _, ScopeStack.imports_declare _ _ _,
    Nat.le_of_eq (ScopeStack.maxDepth_declare _ _ _).symm, rfl, rfl, List.prefix_refl _, [], by simp⟩

end Check

/-! ### The steps of a type check -/

section Helpers

open Check

variable (cx : CheckContext)

theorem undefinedClass_keeps (name : String) (span : Span) :
    Keeps (cx.undefinedClass name span) [] :=
  .ite (.pure ()) (.report _ _)

theorem checkAnnotation_keeps (ty : Ty) (span : Span) : Keeps (cx.checkAnnotation ty span) [] := by
  have h := Keeps.forM (g := fun _ => []) (fun name : String =>
    Keeps.ite (p := (cx.class? name).isSome = true) (.pure ()) (undefinedClass_keeps cx name span))
    ty.classNames
  exact h.mono (by simp)

theorem identTy_keeps (node : Nat) (name : String) : Keeps (cx.identTy node name) [] := by
  unfold CheckContext.identTy
  split
  · exact Keeps.get.bind fun _ => .pure _
  all_goals exact .pure _

theorem moduleMemberTy_keeps (path name : String) (span : Span) :
    Keeps (cx.moduleMemberTy path name span) [] := by
  unfold CheckContext.moduleMemberTy
  split
  · exact .pure _
  · split
    · exact (Keeps.report _ _).bind fun _ => .pure _
    · exact .ite (.pure _) ((Keeps.report _ _).bind fun _ => .pure _)

theorem classMemberTy_keeps (className name : String) (fromClass : Bool) (span : Span) :
    Keeps (cx.classMemberTy className name fromClass span) [] := by
  unfold CheckContext.classMemberTy
  split
  · exact (undefinedClass_keeps cx _ _).bind fun _ => .pure _
  · split
    · exact (Keeps.report _ _).bind fun _ => .pure _
    · refine .ite ((Keeps.report _ _).bind fun _ => .pure _) ?_
      exact .ite (.pure _) ((Keeps.report _ _).bind fun _ => .pure _)

theorem valueMemberTy_keeps (receiver : Ty) (name : String) (fromClass : Bool) (span : Span) :
    Keeps (cx.valueMemberTy receiver name fromClass span) [] := by
  unfold CheckContext.valueMemberTy
  split
  · exact classMemberTy_keeps cx _ _ _ _
  · exact .pure _
  · split
    · exact .pure _
    · exact (Keeps.report _ _).bind fun _ => .pure _

theorem instanceTy_keeps (className : String) (span : Span) :
    Keeps (cx.instanceTy className span) [] := by
  unfold CheckContext.instanceTy
  split
  · exact .ite (.pure _) ((Keeps.report _ _).bind fun _ => .pure _)
  · exact (undefinedClass_keeps cx _ _).bind fun _ => .pure _

theorem binaryTy_keeps (op : BinaryOp) (left right : TypedNode) (span : Span) :
    Keeps (binaryTy op left right span) [] := by
  unfold binaryTy
  split
  · exact (Keeps.expectAssignable _ _ _).bind fun _ =>
      (Keeps.expectAssignable _ _ _).bind fun _ => .pure _
  · split
    · exact (Keeps.report _ _).bind fun _ => .pure _
    · refine .ite (.pure _) (.ite (.pure _) (.ite (.pure _) ?_))
      exact (Keeps.report _ _).bind fun _ => .pure _

theorem unaryTy_keeps (op : UnaryOp) (operand : TypedNode) : Keeps (unaryTy op operand) [] := by
  unfold unaryTy
  split
  · exact .ite (.pure _) ((Keeps.report _ _).bind fun _ => .pure _)
  · exact (Keeps.expectAssignable _ _ _).bind fun _ => .pure _

theorem elementTy_keeps (iterable : TypedNode) : Keeps (elementTy iterable) [] := by
  unfold elementTy
  split
  · exact .pure _
  · exact .pure _
  · exact (Keeps.report _ _).bind fun _ => .pure _

theorem indexedTy_keeps (object : TypedNode) : Keeps (indexedTy object) [] := by
  unfold indexedTy
  split
  · exact .pure _
  · exact elementTy_keeps object

theorem joinElement_keeps (common : Ty) (element : TypedNode) :
    Keeps (joinElement common element) [] := by
  unfold joinElement
  split
  · exact .pure _
  · exact (Keeps.report _ _).bind fun _ => .pure _

theorem returned_keeps (ty : Ty) (span : Span) :
    Keeps (do
      if let some expected := (← get).expected then
        expectAssignable ty expected span) [] := by
  refine .after (fun s => ?_) .get
  cases s.expected with
  | none => exact .pure ()
  | some expected => exact .expectAssignable _ _ _

theorem declarePattern_none_keeps (scrutinee : Ty) (span : Span) :
    Keeps (declarePattern scrutinee .none span) [] := by
  cases scrutinee with
  | option _ => exact .pure ()
  | unknown => exact .pure ()
  | _ => exact .report _ _

theorem declarePattern_steps (scrutinee : Ty) (pattern : ArmPattern) (span : Span) (s : Checker) :
    Checker.Steps (pattern.locals scrutinee) [] s
      ((declarePattern scrutinee pattern span).after s) := by
  cases pattern with
  | wildcard => exact .refl s
  | none => exact declarePattern_none_keeps scrutinee span s
  | some name nameSpan =>
    rw [declarePattern_some]
    exact (declarePattern_none_keeps scrutinee span s).trans
      (declare_steps name nameSpan scrutinee.present _)

theorem declareParams_steps : ∀ (params : List Param) (s : Checker),
    Checker.Steps (paramLocals params) [] s ((cx.declareParams params).after s)
  | [], s => .refl s
  | p :: params, s => by
    have ha := checkAnnotation_keeps cx p.ty p.span s
    have hd := declare_steps p.name p.span p.ty ((cx.checkAnnotation p.ty p.span).after s)
    have hp := declareParams_steps params
      ((declare p.name p.ty).after ((cx.checkAnnotation p.ty p.span).after s))
    rw [paramLocals, List.map_cons, List.reverse_cons]
    exact (ha.trans hd).trans hp

end Helpers

/-! ### The check of a piece -/

section Walk

open Check

variable (cx : CheckContext)

/-- The numbers and spans of expressions. -/
abbrev nodes (es : List Expr) : List Node :=
  es.map Expr.node

theorem appliedTy_keeps (callee : Expr) (args : List Expr) (span : Span)
    (h : ∀ params, Keeps (checkArgs cx params args) (nodes (exprsWithin args))) (calleeTy : Ty) :
    Keeps (cx.appliedTy callee args span calleeTy) (nodes (exprsWithin args)) := by
  unfold CheckContext.appliedTy
  split
  · exact .after (fun _ => (h _).before fun _ => .pure _) (.ite (.pure ()) (.report _ _))
  · exact (h []).before fun _ => .pure _
  · exact (h []).before fun _ => (Keeps.report _ _).bind fun _ => .pure _

/-- The number of an expression alone, out of those within it. -/
theorem node_sublist_within (e : Expr) : [e.node].Sublist (nodes e.within) :=
  List.singleton_sublist.2 (List.mem_map_of_mem (mem_within_self e))

mutual

/-- Checking an expression leaves the open scopes as they are. -/
theorem checkExpr_keeps : ∀ e : Expr, Keeps (checkExpr cx e) (nodes e.within)
  | .int node _ | .float node _ | .string node _ | .bool node _ | .noneLit node =>
    (Keeps.record node _).before fun _ => .pure _
  | .this node => .after (fun s => (Keeps.record node _).before fun _ => .pure _) .get
  | .ident node name => (identTy_keeps cx node.id name).recorded node
  | .interpolated node parts => by
    rw [nodes, Expr.within, List.map_append]
    exact (checkParts_keeps parts).bind fun _ => (Keeps.record node _).before fun _ => .pure _
  | .someOf node inner => by
    rw [nodes, Expr.within, List.map_append]
    exact (checkExpr_keeps inner).bind fun _ => (Keeps.record node _).before fun _ => .pure _
  | .binary node op left right => by
    rw [nodes, Expr.within, List.map_append, List.map_append, List.append_assoc]
    refine (checkExpr_keeps left).bind fun leftTy => (checkExpr_keeps right).bind fun rightTy => ?_
    exact (binaryTy_keeps op _ _ _).recorded node
  | .unary node op operand => by
    rw [nodes, Expr.within, List.map_append]
    exact (checkExpr_keeps operand).bind fun _ => (unaryTy_keeps op _).recorded node
  | .assign node target value => by
    rw [nodes, Expr.within, List.map_append, List.map_append, List.append_assoc]
    refine (checkExpr_keeps target).bind fun targetTy => (checkExpr_keeps value).bind fun _ => ?_
    exact .after (fun _ => (Keeps.record node _).before fun _ => .pure _)
      (.expectAssignable _ _ _)
  | .call node callee args => by
    rw [nodes, Expr.within, List.map_append, List.map_append]
    cases h : cx.names.intrinsic? callee with
    | some name =>
      rw [checkExpr_call_intrinsic cx h, List.append_assoc]
      refine ((Keeps.record callee.node _).mono (node_sublist_within callee)).bind fun _ => ?_
      exact (checkArgs_keeps args []).bind fun _ => (Keeps.record node _).before fun _ => .pure _
    | none =>
      rw [checkExpr_call cx h, List.append_assoc]
      refine (checkExpr_keeps callee).bind fun calleeTy => ?_
      exact (appliedTy_keeps cx callee args _ (checkArgs_keeps args) calleeTy).recorded node
  | .member node object name nameSpan => by
    rw [nodes, Expr.within, List.map_append]
    cases hb : cx.names.isBuiltin object with
    | true =>
      rw [checkExpr_member_builtin cx hb]
      refine ((Keeps.record object.node _).mono (node_sublist_within object)).bind fun _ => ?_
      exact (Keeps.record node _).before fun _ => .pure _
    | false =>
      cases ha : cx.names.aliased? object with
      | some path =>
        rw [checkExpr_member_aliased cx hb ha]
        refine ((Keeps.record object.node _).mono (node_sublist_within object)).bind fun _ => ?_
        exact (moduleMemberTy_keeps cx path name nameSpan).recorded node
      | none =>
        rw [checkExpr_member_value cx hb ha]
        exact (checkExpr_keeps object).bind fun objectTy =>
          (valueMemberTy_keeps cx objectTy name _ nameSpan).recorded node
  | .index node object index => by
    rw [nodes, Expr.within, List.map_append, List.map_append, List.append_assoc]
    refine (checkExpr_keeps object).bind fun objectTy => (checkExpr_keeps index).bind fun _ => ?_
    exact .after (fun _ => (indexedTy_keeps _).recorded node) (.expectAssignable _ _ _)
  | .new node className classSpan args => by
    rw [nodes, Expr.within, List.map_append]
    exact (checkArgs_keeps args []).bind fun _ =>
      (instanceTy_keeps cx className classSpan).recorded node
  | .array node items => by
    rw [nodes, Expr.within, List.map_append]
    exact (checkItems_keeps items .unknown).bind fun _ =>
      (Keeps.record node _).before fun _ => .pure _
  | .lambda node params ret body => by
    rw [nodes, Expr.within, List.map_append]
    refine Keeps.bind (Keeps.returning (Keeps.inScope ?_) ret) fun _ =>
      (Keeps.record node _).before fun _ => .pure _
    exact .declaring (fun _ => checkBlock_keeps body) fun s => ⟨_, declareParams_steps cx params s⟩

theorem checkArgs_keeps : ∀ (args : List Expr) (params : List Ty),
    Keeps (checkArgs cx params args) (nodes (exprsWithin args))
  | [], [] | [], _ :: _ => .pure ()
  | arg :: args, [] => by
    rw [nodes, exprsWithin, List.map_append]
    exact (checkExpr_keeps arg).discard.bind fun _ => checkArgs_keeps args []
  | arg :: args, param :: params => by
    rw [nodes, exprsWithin, List.map_append]
    exact (checkExpr_keeps arg).bind fun ty =>
      .after (fun _ => checkArgs_keeps args params) (.expectAssignable _ _ _)

theorem checkItems_keeps : ∀ (items : List Expr) (common : Ty),
    Keeps (checkItems cx common items) (nodes (exprsWithin items))
  | [], common => .pure common
  | item :: items, common => by
    rw [nodes, exprsWithin, List.map_append]
    exact (checkExpr_keeps item).bind fun ty =>
      .after (fun common => checkItems_keeps items common) (joinElement_keeps _ _)

theorem checkParts_keeps : ∀ parts : List Part,
    Keeps (checkParts cx parts) (nodes (partsWithin parts))
  | [] => .pure ()
  | .text _ :: parts => checkParts_keeps parts
  | .hole e :: parts => by
    rw [nodes, partsWithin, List.map_append]
    exact (checkExpr_keeps e).discard.bind fun _ => checkParts_keeps parts

/-- Checking a statement adds to the innermost scope what the statement declares. -/
theorem checkStmt_steps : ∀ (stmt : Stmt) (s : Checker),
    Checker.Steps (stmt.locals cx s) (nodes stmt.within) s ((checkStmt cx stmt).after s)
  | .letStmt name _ none value nameSpan _, s => by
    have hv := checkExpr_keeps value s
    have hd := declare_steps name nameSpan ((checkExpr cx value).result s)
      ((checkExpr cx value).after s)
    exact (hv.trans hd).mono (by simp [Stmt.within])
  | .letStmt name _ (some ty) value nameSpan _, s => by
    have hv : Keeps (do
        let valueTy ← checkExpr cx value
        cx.checkAnnotation ty nameSpan
        Check.expectAssignable valueTy ty value.span) (nodes value.within) :=
      (checkExpr_keeps value).before fun _ =>
        (checkAnnotation_keeps cx ty nameSpan).bind fun _ => .expectAssignable _ _ _
    exact ((hv s).trans (declare_steps name nameSpan ty _)).mono (by simp [Stmt.within])
  | .returnStmt none span, s => returned_keeps .void span s
  | .returnStmt (some value) _, s =>
    ((checkExpr_keeps value).before fun ty => returned_keeps ty value.span) s
  | .ifStmt condition body none _, s | .whileStmt condition body _, s => by
    rw [nodes, Stmt.within, List.map_append]
    have hc : Keeps (checkCondition cx condition) (nodes condition.within) :=
      (checkExpr_keeps condition).before fun _ => .expectAssignable _ _ _
    exact (hc.bind fun _ => checkBlock_keeps body) s
  | .ifStmt condition body (some otherwise) _, s => by
    rw [nodes, Stmt.within, List.map_append, List.map_append]
    have hc : Keeps (checkCondition cx condition) (nodes condition.within) :=
      (checkExpr_keeps condition).before fun _ => .expectAssignable _ _ _
    have hb : Keeps (checkBranch cx condition body) (nodes condition.within ++ nodes body.within) :=
      hc.bind fun _ => checkBlock_keeps body
    have ho := (hb s).trans (checkStmt_steps otherwise ((checkBranch cx condition body).after s))
    rw [List.append_nil] at ho
    exact ho
  | .forStmt name nameSpan iterable body _, s => by
    rw [nodes, Stmt.within, List.map_append]
    refine (Keeps.bind (checkExpr_keeps iterable) fun ty => ?_) s
    refine .after (fun element => .inScope ?_) (elementTy_keeps _)
    exact .declaring (fun _ => checkBlock_keeps body)
      fun s => ⟨_, declare_steps name nameSpan element s⟩
  | .matchStmt scrutinee arms _, s => by
    rw [nodes, Stmt.within, List.map_append]
    exact (Keeps.bind (checkExpr_keeps scrutinee) fun ty => checkArms_keeps arms ty) s
  | .block body, s => checkBlock_keeps body s
  | .expr value, s => checkExpr_keeps value s

theorem checkStmts_adds : ∀ stmts : List Stmt,
    Adds (checkStmts cx stmts) (nodes (stmtsWithin stmts))
  | [] => (Keeps.pure ()).adds
  | stmt :: stmts => by
    rw [nodes, stmtsWithin, List.map_append]
    exact Adds.bind (fun s => ⟨_, checkStmt_steps stmt s⟩) fun _ => checkStmts_adds stmts

theorem checkBlock_keeps : ∀ body : Block, Keeps (checkBlock cx body) (nodes body.within)
  | ⟨stmts, _⟩ => .inScope (checkStmts_adds stmts)

theorem checkArms_keeps : ∀ (arms : List Arm) (scrutinee : Ty),
    Keeps (checkArms cx scrutinee arms) (nodes (armsWithin arms))
  | [], _ => .pure ()
  | ⟨pattern, body, span⟩ :: arms, scrutinee => by
    rw [nodes, armsWithin, List.map_append]
    refine Keeps.bind (Keeps.inScope ?_) fun _ => checkArms_keeps arms scrutinee
    exact .declaring (fun _ => checkBlock_keeps body)
      fun s => ⟨_, declarePattern_steps scrutinee pattern span s⟩

end

theorem checkCondition_keeps (condition : Expr) :
    Keeps (checkCondition cx condition) (nodes condition.within) :=
  (checkExpr_keeps cx condition).before fun _ => .expectAssignable _ _ _

theorem checkIterable_keeps (iterable : Expr) :
    Keeps (checkIterable cx iterable) (nodes iterable.within) :=
  (checkExpr_keeps cx iterable).before fun _ => elementTy_keeps _

theorem checkBranch_keeps (condition : Expr) (body : Block) :
    Keeps (checkBranch cx condition body) (nodes condition.within ++ nodes body.within) :=
  (checkCondition_keeps cx condition).bind fun _ => checkBlock_keeps cx body

theorem checkFunction_keeps (f : FunctionDecl) :
    Keeps (checkFunction cx f) (nodes f.body.within) := by
  refine .returning (.after (fun _ => .inScope ?_) (checkAnnotation_keeps cx _ _)) f.ret
  exact .declaring (fun _ => checkBlock_keeps cx f.body)
    fun s => ⟨_, declareParams_steps cx f.params s⟩

theorem checkField_keeps (f : FieldDecl) :
    Keeps (checkField cx f) (nodes (exprsWithin f.initial.toList)) := by
  refine .after (fun _ => ?_) (checkAnnotation_keeps cx _ _)
  cases f.initial with
  | none => exact .pure ()
  | some value =>
    have hv : Keeps (checkExpr cx value) (nodes (exprsWithin [value])) :=
      (checkExpr_keeps cx value).mono (by simp [exprsWithin])
    exact hv.before fun _ => .expectAssignable _ _ _

/-- What is gathered field by field is what is gathered from all initial values. -/
theorem flatMap_initials {α : Type} {g : List Expr → List α} (hn : g [] = [])
    (hc : ∀ e es, g (e :: es) = g [e] ++ g es) (fields : List FieldDecl) :
    fields.flatMap (fun f => g f.initial.toList) = g (fields.filterMap (·.initial)) := by
  induction fields with
  | nil => exact hn.symm
  | cons f fields ih =>
    rw [List.flatMap_cons, ih]
    cases h : f.initial with
    | none =>
      rw [List.filterMap_cons_none h, Option.toList_none, hn, List.nil_append]
    | some value =>
      rw [List.filterMap_cons_some h, hc, Option.toList_some]

theorem checkClass_keeps (c : ClassDecl) : Keeps (checkClass cx c) (nodes c.within) := by
  have hf := Keeps.forM (checkField_keeps cx) c.fields
  have hm := Keeps.forM (checkFunction_keeps cx) c.methods
  rw [flatMap_initials (g := fun es => nodes (exprsWithin es)) rfl (by simp [exprsWithin])] at hf
  rw [nodes, ClassDecl.within, List.map_append, List.map_flatMap]
  exact .inClass (hf.bind fun _ => hm) c.name

/-- Checking a module leaves no scope open, and gives types to expressions of the module. -/
theorem checkModule_keeps : Keeps (checkModule cx) (nodes cx.module.exprs) := by
  have hc := Keeps.forM (checkClass_keeps cx) cx.module.decls.classes
  have hf := Keeps.forM (checkFunction_keeps cx) cx.module.decls.functions
  rw [nodes, Module.exprs, List.map_append, List.map_flatMap, List.map_flatMap]
  exact .inScope (hc.bind fun _ => hf).adds

end Walk

/-! ### The table of types -/

/-- The check of an expression ends with its type in the table. -/
theorem checkExpr_records (cx : CheckContext) (e : Expr) (s : Checker) :
    ⟨e.node, (checkExpr cx e).result s⟩ ∈ ((checkExpr cx e).after s).types.toList := by
  rw [Array.mem_toList_iff]
  cases e with
  | call node callee args =>
    cases h : cx.names.intrinsic? callee with
    | some name =>
      rw [checkExpr_call_intrinsic cx h]
      exact Array.mem_push_self
    | none =>
      rw [checkExpr_call cx h]
      exact Array.mem_push_self
  | member node object name nameSpan =>
    cases hb : cx.names.isBuiltin object with
    | true =>
      rw [checkExpr_member_builtin cx hb]
      exact Array.mem_push_self
    | false =>
      cases ha : cx.names.aliased? object with
      | some path =>
        rw [checkExpr_member_aliased cx hb ha]
        exact Array.mem_push_self
      | none =>
        rw [checkExpr_member_value cx hb ha]
        exact Array.mem_push_self
  | _ => exact Array.mem_push_self

namespace Types

theorem typeOf?_eq_some {t : Types} {tn : TypedNode} (h : tn ∈ t.nodes)
    (hn : (t.nodes.map (·.node.id)).Nodup) : t.typeOf? tn.node.id = some tn.ty := by
  unfold typeOf?
  generalize t.nodes = us at h hn
  induction us with
  | nil => contradiction
  | cons u us ih =>
    rw [List.map_cons, List.nodup_cons] at hn
    rcases List.mem_cons.1 h with rfl | h
    · simp
    · have hu : (u.node.id == tn.node.id) = false := by
        refine beq_false_of_ne fun he => hn.1 ?_
        rw [he]
        exact List.mem_map_of_mem h
      rw [List.find?_cons, hu]
      exact ih h hn.2

end Types

section

variable {r : Registry} {path : String} {m : Module}

/-- What the check of the module at a path looks things up in. -/
def Registry.checkContext (r : Registry) (path : String) (m : Module) : CheckContext :=
  ⟨r, r.names path, m⟩

theorem names_module (r : Registry) (path : String) : (r.names path).module = path := by
  unfold Registry.names
  split <;> rfl

theorem check_eq (hm : r.find? path = some m) :
    r.check (r.names path) =
      { errors := ((checkModule (r.checkContext path m)).after {}).errors.toList
        nodes := ((checkModule (r.checkContext path m)).after {}).types.toList } := by
  rw [Registry.check, names_module, hm]
  rfl

/-- Where nothing is reported of a module, the check of the module ends without faults. -/
theorem errors_of_silent (hm : r.find? path = some m)
    (hs : (r.check (r.names path)).errors = []) :
    ((checkModule (r.checkContext path m)).after {}).errors = #[] := by
  rw [check_eq hm] at hs
  exact Array.toList_eq_nil_iff.1 hs

/-- No expression gets two types. -/
theorem typeOf?_of_mem (hm : r.find? path = some m) (hn : m.Numbered) {tn : TypedNode}
    (h : tn ∈ ((checkModule (r.checkContext path m)).after {}).types.toList) :
    (r.check (r.names path)).typeOf? tn.node.id = some tn.ty := by
  rw [check_eq hm]
  refine Types.typeOf?_eq_some h ?_
  obtain ⟨ts, ht, hs⟩ := (checkModule_keeps (r.checkContext path m) {}).types
  have hi : (ts.map (·.node.id)).Sublist (m.exprs.map Expr.id) := by
    have h := hs.map Node.id
    rw [nodes, List.map_map, List.map_map] at h
    exact h
  have he : ((checkModule (r.checkContext path m)).after {}).types.toList = ts := ht
  rw [he]
  exact hi.nodup hn

end

end MgLang
