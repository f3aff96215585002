import MgLang.Proofs.CheckRun
import MgLang.Proofs.Rules
/-!
# When a type check is silent

A type check reports a fault as soon as it meets one; the typing rules are read off the table of
types when the check is done. The main statement is `check_silent_iff`: a check of a module whose
imports all hold reports nothing exactly where the rules are met everywhere in the module.

Every step of a check is judged by a proposition, which holds exactly where the step reports nothing
(`Judged`). The judgement of a piece is put together from those of its parts, since a fault once
reported stays (`Judged.and`).
-/

namespace MgLang

open Check

/-- The table has the types that the check has found so far. -/
def Typing.Agrees (ρ : Typing) (s : Checker) : Prop :=
  ∀ t ∈ s.types.toList, ρ.types.typeOf? t.node.id = some t.ty

/-- A step only adds to the faults and the types that have been found; and if the table has all of
these types, it adds no fault exactly where a proposition holds. -/
structure Judged {α : Type} (ρ : Typing) (x : Check α) (s : Checker) (P : Prop) : Prop where
  errors : s.errors.toList <+: (x.after s).errors.toList
  types : ∀ t ∈ s.types.toList, t ∈ (x.after s).types.toList
  silent : ρ.Agrees (x.after s) → ((x.after s).errors = s.errors ↔ P)

/-! ### Judging a step by its parts -/

namespace Judged

variable {α β : Type} {ρ : Typing} {x : Check α} {f : α → Check β} {s : Checker} {P Q : Prop}

/-- Lists that only grow are the same at the end if they are the same at every step. -/
theorem prefix_eq_iff {γ : Type} {as bs cs : Array γ} (h : as.toList <+: bs.toList)
    (h' : bs.toList <+: cs.toList) : cs = as ↔ bs = as ∧ cs = bs := by
  refine ⟨?_, ?_⟩
  · rintro rfl
    have hb : bs = cs := Array.toList_inj.1 (h'.eq_of_length_le h.length_le)
    exact ⟨hb, hb.symm⟩
  · rintro ⟨rfl, rfl⟩
    rfl

theorem congr (h : Judged ρ x s P) (hq : P ↔ Q) : Judged ρ x s Q :=
  ⟨h.errors, h.types, fun ha => (h.silent ha).trans hq⟩

theorem and (hx : Judged ρ x s P) (hf : Judged ρ (f (x.result s)) (x.after s) Q) :
    Judged ρ (x >>= f) s (P ∧ Q) := by
  refine ⟨hx.errors.trans hf.errors, fun t ht => hf.types t (hx.types t ht), fun ha => ?_⟩
  have ha' : ρ.Agrees (x.after s) := fun t ht => ha t (hf.types t ht)
  have hp := hx.silent ha'
  have hq := hf.silent ha
  rw [← hp, ← hq]
  exact prefix_eq_iff hx.errors hf.errors

theorem pure (a : α) : Judged ρ (Pure.pure a) s True :=
  ⟨List.prefix_refl _, fun _ ht => ht, fun _ => by simp⟩

theorem get : Judged ρ MonadState.get s True :=
  ⟨List.prefix_refl _, fun _ ht => ht, fun _ => by simp⟩

theorem record (node : Node) (ty : Ty) : Judged ρ (record node ty) s True :=
  ⟨List.prefix_refl _, fun _ ht => by simp [ht], fun _ => by simp⟩

theorem declare (name : String) (ty : Ty) : Judged ρ (declare name ty) s True :=
  ⟨List.prefix_refl _, fun _ ht => ht, fun _ => by simp⟩

theorem report (cause : Cause) (span : Span) : Judged ρ (report cause span) s False :=
  ⟨by simp, fun _ ht => ht, fun _ => by simp⟩

/-- A step that reports nothing, before another one. -/
theorem after (hf : Judged ρ (f (x.result s)) (x.after s) P) (hx : Judged ρ x s True) :
    Judged ρ (x >>= f) s P :=
  (hx.and hf).congr (iff_of_eq (true_and P))

/-- A step that reports nothing, behind another one. -/
theorem before (hx : Judged ρ x s P) (hf : Judged ρ (f (x.result s)) (x.after s) True) :
    Judged ρ (x >>= f) s P :=
  (hx.and hf).congr (iff_of_eq (and_true P))

/-- After a fault nothing is silent. -/
theorem fault {cause : Cause} {span : Span} {f : Unit → Check β} {Q : Prop}
    (hf : Judged ρ (f ()) ((Check.report cause span).after s) Q) :
    Judged ρ (Check.report cause span >>= f) s False :=
  ((report cause span).and hf).congr (iff_of_eq (false_and Q))

theorem recorded {x : Check Ty} (h : Judged ρ x s P) (node : Node) :
    Judged ρ (x >>= fun ty => Check.record node ty >>= fun _ => Pure.pure ty) s P :=
  h.before ((pure _).after (f := fun _ => Pure.pure (x.result s)) (record node _))

/-- Behind a step, a type is recorded that was known before. -/
theorem recording (h : Judged ρ x s P) (node : Node) (ty : Ty) :
    Judged ρ (x >>= fun _ => Check.record node ty >>= fun _ => Pure.pure ty) s P :=
  h.before ((pure ty).after (f := fun _ => Pure.pure ty) (record node ty))

theorem discard (h : Judged ρ x s P) : Judged ρ (discard x) s P :=
  ⟨h.errors, h.types, h.silent⟩

theorem inScope (h : Judged ρ x s.push P) : Judged ρ (inScope x) s P :=
  ⟨h.errors, h.types, h.silent⟩

theorem returning {ty : Ty} (h : Judged ρ x { s with expected := some ty } P) :
    Judged ρ (returning ty x) s P :=
  ⟨h.errors, h.types, h.silent⟩

theorem inClass {name : String} (h : Judged ρ x { s with enclosing := some name } P) :
    Judged ρ (inClass name x) s P :=
  ⟨h.errors, h.types, h.silent⟩

theorem forM {f : α → Check PUnit} {P : α → Prop} (h : ∀ a s, Judged ρ (f a) s (P a)) :
    ∀ (as : List α) (s : Checker), Judged ρ (as.forM f) s (∀ a ∈ as, P a)
  | [], _ => (pure PUnit.unit).congr (by simp)
  | a :: as, s => by
    have hs := (h a s).and (f := fun _ => as.forM f) (forM h as ((f a).after s))
    exact hs.congr List.forall_mem_cons.symm

/-- Something that depends on the type of an expression, after the expression. The type can then be
read off the table. -/
theorem typed {e : Expr} {f : Ty → Check β} {Q : Ty → Prop} (hx : Judged ρ (checkExpr ρ.cx e) s P)
    (hf : Judged ρ (f ((checkExpr ρ.cx e).result s)) ((checkExpr ρ.cx e).after s)
      (Q ((checkExpr ρ.cx e).result s))) :
    Judged ρ (checkExpr ρ.cx e >>= f) s (P ∧ Q (ρ.ty e)) := by
  have h := hx.and hf
  refine ⟨h.errors, h.types, fun ha => ?_⟩
  have ht := ha _ (hf.types _ (checkExpr_records ρ.cx e s))
  have hty : ρ.ty e = (checkExpr ρ.cx e).result s := by
    show (ρ.types.typeOf? e.node.id).getD .unknown = _
    rw [ht, Option.getD_some]
  rw [hty]
  exact h.silent ha

end Judged

/-! ### The steps of a type check -/

section Helpers

variable {ρ : Typing} (s : Checker)

theorem expectAssignable_judged (received expected : Ty) (span : Span) :
    Judged ρ (expectAssignable received expected span) s (received.isAssignable expected) := by
  unfold expectAssignable
  by_cases h : received.isAssignable expected = true
  · rw [if_pos h]
    exact (Judged.pure ()).congr (by simp [h])
  · rw [if_neg h]
    exact (Judged.report _ _).congr (by simp [h])

/-- Unless something holds, a fault is reported; the type is found in either case. -/
theorem unless_judged {p : Prop} [Decidable p] (cause : Cause) (span : Span) (a b : Ty) :
    Judged ρ (if p then pure a else do report cause span; pure b) s p := by
  by_cases h : p
  · rw [if_pos h]
    exact .congr (.pure a) (by simp [h])
  · rw [if_neg h]
    exact .congr (.fault (.pure b)) (by simp [h])

theorem expectArity_judged (callee : Expr) (params received : Nat) (span : Span) :
    Judged ρ (expectArity callee params received span) s (params = received) := by
  unfold expectArity
  by_cases h : params = received
  · rw [if_pos h]
    exact (Judged.pure ()).congr (by simp [h])
  · rw [if_neg h]
    exact (Judged.report _ _).congr (by simp [h])

theorem binaryTy_judged (op : BinaryOp) (left right : TypedNode) (span : Span) :
    Judged ρ (binaryTy op left right span) s (op.Fits left.ty right.ty) := by
  unfold binaryTy BinaryOp.Fits
  by_cases hl : op.isLogical = true
  · rw [if_pos hl, if_pos hl]
    have hr := (expectAssignable_judged (ρ := ρ)
      ((expectAssignable left.ty .bool left.node.span).after s) right.ty .bool right.node.span)
    exact (expectAssignable_judged s left.ty .bool left.node.span).and (hr.before (.pure _))
  · rw [if_neg hl, if_neg hl]
    cases hc : left.ty.common? right.ty with
    | none => exact .congr (P := False) (.fault (.pure _)) (by simp)
    | some common =>
      dsimp only
      by_cases hcmp : op.isComparison = true
      · rw [if_pos hcmp]
        exact .congr (.pure _) (by simp [hcmp])
      · rw [if_neg hcmp]
        by_cases hn : common.isNumeric = true
        · rw [if_pos hn]
          exact .congr (.pure _) (by simp [hn])
        · rw [if_neg hn]
          exact (unless_judged s _ _ _ _).congr (by simp [hcmp, hn])

theorem unaryTy_judged (op : UnaryOp) (operand : TypedNode) :
    Judged ρ (unaryTy op operand) s (op.Fits operand.ty) := by
  cases op with
  | negate => exact unless_judged s _ _ _ _
  | not => exact (expectAssignable_judged s _ _ _).before (.pure _)

theorem elementTy_judged (iterable : TypedNode) :
    Judged ρ (elementTy iterable) s iterable.ty.IsIterable := by
  unfold elementTy
  split
  · next inner h => exact .congr (.pure _) (by simp [Ty.IsIterable, h])
  · next h => exact .congr (.pure _) (by simp [Ty.IsIterable, h])
  · next h h' =>
    refine .congr (P := False) (.fault (.pure _)) ⟨False.elim, ?_⟩
    rintro (hu | ⟨inner, ha⟩)
    · exact h' hu
    · exact h inner ha

theorem indexedTy_judged (object : TypedNode) :
    Judged ρ (indexedTy object) s (object.ty = .string ∨ object.ty.IsIterable) := by
  unfold indexedTy
  split
  · next h => exact .congr (.pure _) (by simp [h])
  · next h => exact (elementTy_judged s object).congr (or_iff_right h).symm

theorem joinElement_judged (common : Ty) (element : TypedNode) :
    Judged ρ (joinElement common element) s (common.common? element.ty).isSome := by
  unfold joinElement
  split
  · next h => exact .congr (.pure _) (by simp [h])
  · next h => exact .congr (P := False) (.fault (.pure _)) (by simp [h])

theorem declarePattern_judged (scrutinee : Ty) (pattern : ArmPattern) (span : Span) :
    Judged ρ (declarePattern scrutinee pattern span) s
      (pattern ≠ .wildcard → scrutinee.IsOptional) := by
  have hnone : Judged ρ (declarePattern scrutinee .none span) s scrutinee.IsOptional := by
    cases scrutinee with
    | option inner => exact .congr (.pure ()) (by simp [Ty.IsOptional])
    | unknown => exact .congr (.pure ()) (by simp [Ty.IsOptional])
    | _ => exact .congr (.report _ _) (by simp [Ty.IsOptional])
  cases pattern with
  | wildcard => exact .congr (.pure ()) (by simp)
  | none => exact hnone.congr (by simp)
  | some name nameSpan =>
    rw [declarePattern_some]
    exact (hnone.before (.declare _ _)).congr (by simp)

theorem returned_judged (ty ret : Ty) (span : Span) (he : s.expected = some ret) :
    Judged ρ (do
      if let some expected := (← get).expected then
        expectAssignable ty expected span) s (ty.isAssignable ret) := by
  refine .after ?_ .get
  rw [result_get, after_get, he]
  exact expectAssignable_judged s ty ret span

theorem identTy_judged (cx : CheckContext) (node : Nat) (name : String) :
    Judged ρ (cx.identTy node name) s True := by
  unfold CheckContext.identTy
  split
  · exact .after (.pure _) .get
  all_goals exact .pure _

theorem moduleMemberTy_judged (path name : String) (span : Span) :
    Judged ρ (ρ.cx.moduleMemberTy path name span) s (ρ.cx.OffersMember path name) := by
  unfold CheckContext.moduleMemberTy CheckContext.OffersMember
  cases hm : ρ.cx.registry.find? path with
  | none => exact .congr (.pure _) (by simp)
  | some m =>
    dsimp only
    cases hs : m.symbol? name with
    | none => exact .congr (P := False) (.fault (.pure _)) (by simp [hs])
    | some symbol => exact (unless_judged s _ _ _ _).congr (by simp [hs])

end Helpers

section

variable {ρ : Typing} (hi : ρ.cx.module.importFailed = false) (s : Checker)
include hi

theorem undefinedClass_judged (name : String) (span : Span) :
    Judged ρ (ρ.cx.undefinedClass name span) s False := by
  unfold CheckContext.undefinedClass
  rw [hi, if_neg Bool.false_ne_true]
  exact .report _ _

theorem checkAnnotation_judged (ty : Ty) (span : Span) :
    Judged ρ (ρ.cx.checkAnnotation ty span) s (ρ.Known ty) := by
  refine Judged.forM (fun name s => ?_) ty.classNames s
  by_cases h : (ρ.cx.class? name).isSome = true
  · rw [if_pos h]
    exact .congr (.pure ()) (by simp [h])
  · rw [if_neg h]
    exact (undefinedClass_judged hi s name span).congr (by simp [h])

theorem declareParams_judged (params : List Param) :
    Judged ρ (ρ.cx.declareParams params) s (∀ p ∈ params, ρ.Known p.ty) :=
  Judged.forM (fun p s => (checkAnnotation_judged hi s p.ty p.span).before (.declare _ _)) params s

theorem classMemberTy_judged (className name : String) (fromClass : Bool) (span : Span) :
    Judged ρ (ρ.cx.classMemberTy className name fromClass span) s
      (ρ.cx.HasMember (.named className) name fromClass) := by
  unfold CheckContext.classMemberTy CheckContext.HasMember
  cases hc : ρ.cx.class? className with
  | none =>
    have hu := undefinedClass_judged hi s className span
    exact .congr (hu.before (.pure _)) (by simp [hc])
  | some found =>
    obtain ⟨owner, decl⟩ := found
    dsimp only
    cases hm : decl.member? name with
    | none => exact .congr (P := False) (.fault (.pure _)) (by simp [hc, hm])
    | some member =>
      dsimp only
      by_cases hs : (fromClass && !member.isStatic) = true
      · rw [if_pos hs]
        rw [Bool.and_eq_true, Bool.not_eq_true'] at hs
        exact .congr (P := False) (.fault (.pure _)) (by simp [hc, hm, hs])
      · rw [if_neg hs]
        refine (unless_judged s _ _ _ _).congr ?_
        have hs' : fromClass = true → member.isStatic = true := by
          intro hf
          simpa [hf] using hs
        simpa [hc, hm] using fun _ => hs'

theorem valueMemberTy_judged (receiver : Ty) (name : String) (fromClass : Bool) (span : Span) :
    Judged ρ (ρ.cx.valueMemberTy receiver name fromClass span) s
      (ρ.cx.HasMember receiver name fromClass) := by
  unfold CheckContext.valueMemberTy
  split
  · exact classMemberTy_judged hi s _ name fromClass span
  · exact .pure _
  · next hn hu =>
    have hm : ρ.cx.HasMember receiver name fromClass ↔ (receiver.builtinMember? name).isSome := by
      unfold CheckContext.HasMember
      split
      · next className => exact absurd rfl (hn className)
      · exact absurd rfl hu
      · rfl
    split
    · next h => exact .congr (.pure _) (by simp [hm, h])
    · next h => exact .congr (P := False) (.fault (.pure _)) (by simp [hm, h])

theorem instanceTy_judged (className : String) (span : Span) :
    Judged ρ (ρ.cx.instanceTy className span) s (ρ.cx.OffersClass className) := by
  unfold CheckContext.instanceTy CheckContext.OffersClass
  cases hc : ρ.cx.class? className with
  | none =>
    have hu := undefinedClass_judged hi s className span
    exact .congr (hu.before (.pure _)) (by simp)
  | some found =>
    obtain ⟨owner, decl⟩ := found
    exact (unless_judged s _ _ _ _).congr (by simp)

end

/-! ### Pieces that are in order -/

/-- The rules for some expressions and statements are met. -/
def Clean (ρ : Typing) (es : List Expr) (ss : List (Ty × Stmt)) : Prop :=
  (∀ e ∈ es, e.Fits ρ) ∧ ∀ s ∈ ss, s.2.Fits ρ s.1

section Clean

variable {ρ : Typing} {es es' : List Expr} {ss ss' : List (Ty × Stmt)}

@[simp] theorem clean_nil : Clean ρ [] [] := by
  simp [Clean]

theorem clean_append : Clean ρ (es ++ es') (ss ++ ss') ↔ Clean ρ es ss ∧ Clean ρ es' ss' := by
  unfold Clean
  rw [List.forall_mem_append, List.forall_mem_append, and_and_and_comm]

theorem clean_expr {e : Expr} : Clean ρ (es ++ [e]) ss ↔ Clean ρ es ss ∧ e.Fits ρ := by
  unfold Clean
  rw [List.forall_mem_append, List.forall_mem_singleton]
  exact and_right_comm

theorem clean_stmt {ret : Ty} {stmt : Stmt} :
    Clean ρ es (ss ++ [(ret, stmt)]) ↔ Clean ρ es ss ∧ stmt.Fits ρ ret := by
  unfold Clean
  rw [List.forall_mem_append, List.forall_mem_singleton]
  exact and_assoc.symm

theorem clean_flatMap {β : Type} {g : β → List Expr} {h : β → List (Ty × Stmt)} (xs : List β) :
    Clean ρ (xs.flatMap g) (xs.flatMap h) ↔ ∀ x ∈ xs, Clean ρ (g x) (h x) := by
  induction xs with
  | nil => simp
  | cons x xs ih =>
    rw [List.flatMap_cons, List.flatMap_cons, clean_append, ih, List.forall_mem_cons]

/-- The rules are met below a member of a built-in namespace. -/
theorem clean_builtin : ∀ {e : Expr}, ρ.cx.names.isBuiltin e = true → Clean ρ e.within e.statements
  | .ident _ _, _ => by simp [Clean, Expr.within, Expr.statements, Expr.Fits]
  | .member _ object _ _, h => by
    have ho : ρ.cx.names.isBuiltin object = true := h
    rw [Expr.within, Expr.statements, clean_expr]
    exact ⟨clean_builtin ho, by simp [Expr.Fits, ho]⟩

theorem clean_aliased {e : Expr} {path : String} (h : ρ.cx.names.aliased? e = some path) :
    Clean ρ e.within e.statements := by
  obtain ⟨node, n, rfl⟩ := Names.exists_ident_of_aliased? h
  simp [Clean, Expr.within, Expr.statements, Expr.Fits]

theorem clean_intrinsic {e : Expr} {name : String} (h : ρ.cx.names.intrinsic? e = some name) :
    Clean ρ e.within e.statements := by
  obtain ⟨node, n, rfl⟩ := Names.exists_ident_of_intrinsic? h
  simp [Clean, Expr.within, Expr.statements, Expr.Fits]

end Clean

/-! ### Judging the pieces of a module -/

theorem checkBranch_judged {ρ : Typing} {condition : Expr} {body : Block} {s : Checker} {P Q : Prop}
    (hc : Judged ρ (checkExpr ρ.cx condition) s P)
    (hb : Judged ρ (checkBlock ρ.cx body) ((checkCondition ρ.cx condition).after s) Q) :
    Judged ρ (checkBranch ρ.cx condition body) s
      ((P ∧ (ρ.ty condition).isAssignable .bool) ∧ Q) := by
  have hx : Judged ρ (checkCondition ρ.cx condition) s _ :=
    hc.typed (Q := fun ty => ty.isAssignable .bool = true) (expectAssignable_judged _ _ _ _)
  exact hx.and hb

section

variable {ρ : Typing}

/-- The arguments of a call are judged against the parameters, as far as there are any. -/
theorem appliedTy_judged (callee : Expr) (span : Span) (calleeTy : Ty) {args : List Expr}
    (ha : ∀ (params : List Ty) (s : Checker), Judged ρ (checkArgs ρ.cx params args) s
      (Clean ρ (exprsWithin args) (exprsStatements args) ∧
        ∀ p ∈ args.zip params, (ρ.ty p.1).isAssignable p.2)) (s : Checker) :
    Judged ρ (ρ.cx.appliedTy callee args span calleeTy) s
      (Clean ρ (exprsWithin args) (exprsStatements args) ∧
        ρ.Accepts calleeTy args) := by
  cases calleeTy with
  | fn params ret =>
    have hk := expectArity_judged (ρ := ρ) s callee params.length args.length span
    have hs := ha params ((expectArity callee params.length args.length span).after s)
    refine .congr (hk.and (hs.before (.pure ret))) ?_
    rw [Typing.accepts_fn, List.forall₂_iff_zip, and_left_comm]
    refine and_congr_right fun _ => and_congr eq_comm ⟨fun h a b hab => h (a, b) hab, ?_⟩
    rintro h ⟨a, b⟩ hab
    exact h hab
  | unknown => exact .congr ((ha [] s).before (.pure _)) (by simp [Typing.Accepts])
  | _ =>
    refine .congr (P := _ ∧ False) ((ha [] s).and (.fault (.pure _))) (by simp [Typing.Accepts])

mutual

/-- The check of an expression is silent exactly where the rules are met within it. -/
theorem checkExpr_judged (hi : ρ.cx.module.importFailed = false) : ∀ (e : Expr) (s : Checker),
    Judged ρ (checkExpr ρ.cx e) s (Clean ρ e.within e.statements)
  | .int node _, _ | .float node _, _ | .string node _, _ | .bool node _, _ | .noneLit node, _ =>
    .congr (.before (.record node _) (.pure _)) (by
      simp [Clean, Expr.within, Expr.statements, Expr.Fits])
  | .this node, s => by
    have hr : Judged ρ (checkExpr ρ.cx (.this node)) s True :=
      .after (.before (.record node _) (.pure _)) .get
    exact hr.congr (by simp [Clean, Expr.within, Expr.statements, Expr.Fits])
  | .ident node name, s => by
    have hr := (identTy_judged s ρ.cx node.id name).recorded (ρ := ρ) node
    exact hr.congr (by simp [Clean, Expr.within, Expr.statements, Expr.Fits])
  | .interpolated node parts, s => by
    rw [Expr.within, Expr.statements, clean_expr]
    exact (checkParts_judged hi parts s).and (f := fun _ => _) (.before (.record node _) (.pure _))
  | .someOf node inner, s => by
    rw [Expr.within, Expr.statements, clean_expr]
    exact (checkExpr_judged hi inner s).and (.before (.record node _) (.pure _))
  | .binary node op left right, s => by
    have hl := checkExpr_judged hi left s
    have hr := checkExpr_judged hi right ((checkExpr ρ.cx left).after s)
    have ht := (binaryTy_judged (ρ := ρ)
      ((checkExpr ρ.cx right).after ((checkExpr ρ.cx left).after s)) op
      (left.typed ((checkExpr ρ.cx left).result s))
      (right.typed ((checkExpr ρ.cx right).result ((checkExpr ρ.cx left).after s)))
      node.span).recorded node
    rw [Expr.within, Expr.statements, clean_expr, clean_append, and_assoc]
    exact hl.typed (Q := fun ty => _ ∧ op.Fits ty _) (hr.typed (Q := fun ty => op.Fits _ ty) ht)
  | .unary node op operand, s => by
    rw [Expr.within, Expr.statements, clean_expr]
    exact (checkExpr_judged hi operand s).typed (Q := op.Fits)
      ((unaryTy_judged _ op (operand.typed ((checkExpr ρ.cx operand).result s))).recorded node)
  | .assign node target value, s => by
    rw [Expr.within, Expr.statements, clean_expr, clean_append, and_assoc]
    have ht := checkExpr_judged hi target s
    have hv := checkExpr_judged hi value ((checkExpr ρ.cx target).after s)
    refine ht.typed (Q := fun ty => _ ∧ (ρ.ty value).isAssignable ty = true)
      (hv.typed (Q := fun ty => ty.isAssignable _ = true) ?_)
    exact (expectAssignable_judged _ _ _ _).before
      (f := fun _ => _) (.before (.record node _) (.pure _))
  | .call node callee args, s => by
    rw [Expr.within, Expr.statements, clean_expr, clean_append, and_assoc]
    cases hc : ρ.cx.names.intrinsic? callee with
    | some name =>
      rw [checkExpr_call_intrinsic ρ.cx hc]
      have ha := checkArgs_judged hi args [] ((record callee.node .unknown).after s)
      exact .congr (.after (ha.recording node _) (.record _ _))
        (by simp [clean_intrinsic hc, Expr.Fits, Typing.CallFits, hc])
    | none =>
      rw [checkExpr_call ρ.cx hc]
      have ha := appliedTy_judged callee node.span ((checkExpr ρ.cx callee).result s)
        (checkArgs_judged hi args) ((checkExpr ρ.cx callee).after s)
      exact .congr ((checkExpr_judged hi callee s).typed (Q := fun ty => _ ∧ ρ.Accepts ty args)
        (ha.recorded node)) (by simp [Expr.Fits, Typing.CallFits, hc])
  | .member node object name nameSpan, s => by
    rw [Expr.within, Expr.statements, clean_expr]
    cases hb : ρ.cx.names.isBuiltin object with
    | true =>
      rw [checkExpr_member_builtin ρ.cx hb]
      exact .congr (.recording (.record _ _) node .unknown)
        (by simp [clean_builtin hb, Expr.Fits, hb])
    | false =>
      cases ha : ρ.cx.names.aliased? object with
      | some path =>
        rw [checkExpr_member_aliased ρ.cx hb ha]
        exact .congr (.after ((moduleMemberTy_judged _ path name nameSpan).recorded node)
          (.record _ _)) (by simp [clean_aliased ha, Expr.Fits, hb, ha])
      | none =>
        rw [checkExpr_member_value ρ.cx hb ha]
        have hm := valueMemberTy_judged hi ((checkExpr ρ.cx object).after s)
          ((checkExpr ρ.cx object).result s) name (ρ.cx.names.isClass ρ.cx.registry object) nameSpan
        exact .congr ((checkExpr_judged hi object s).typed (Q := fun ty => ρ.cx.HasMember ty name _)
          (hm.recorded node)) (by simp [Expr.Fits, hb, ha])
  | .index node object index, s => by
    rw [Expr.within, Expr.statements, clean_expr, clean_append, and_assoc]
    have ho := checkExpr_judged hi object s
    have hp := checkExpr_judged hi index ((checkExpr ρ.cx object).after s)
    have ht := (indexedTy_judged (ρ := ρ)
      ((expectAssignable ((checkExpr ρ.cx index).result ((checkExpr ρ.cx object).after s)) .int
        index.span).after ((checkExpr ρ.cx index).after ((checkExpr ρ.cx object).after s)))
      (object.typed ((checkExpr ρ.cx object).result s))).recorded node
    exact ho.typed (Q := fun ty => _ ∧ _ ∧ (ty = .string ∨ ty.IsIterable))
      (hp.typed (Q := fun ty => ty.isAssignable .int = true ∧ _)
        ((expectAssignable_judged _ _ _ _).and (f := fun _ => _) ht))
  | .new node className classSpan args, s => by
    rw [Expr.within, Expr.statements, clean_expr]
    have ha := checkArgs_judged hi args [] s
    have ht := instanceTy_judged hi ((checkArgs ρ.cx [] args).after s) className classSpan
    exact .congr (ha.and (ht.recorded node)) (by simp [Expr.Fits])
  | .array node items, s => by
    rw [Expr.within, Expr.statements, clean_expr]
    exact (checkItems_judged hi items .unknown s).before (.before (.record node _) (.pure _))
  | .lambda node params ret body, s => by
    rw [Expr.within, Expr.statements, clean_expr]
    let start := Checker.push { s with expected := some ret }
    have hp := declareParams_judged hi start params
    have he := (declareParams_steps ρ.cx params start).expected
    have hb := (hp.and (f := fun _ => checkBlock ρ.cx body) (checkBlock_judged hi body he))
    exact .congr (hb.inScope.returning.recording node _) and_comm

theorem checkArgs_judged (hi : ρ.cx.module.importFailed = false) : ∀
    (args : List Expr) (params : List Ty) (s : Checker),
    Judged ρ (checkArgs ρ.cx params args) s
      (Clean ρ (exprsWithin args) (exprsStatements args) ∧
        ∀ p ∈ args.zip params, (ρ.ty p.1).isAssignable p.2)
  | [], [], _ | [], _ :: _, _ =>
    .congr (.pure ()) (by simp [exprsWithin, exprsStatements])
  | arg :: args, [], s => by
    have ha := (checkExpr_judged hi arg s).discard
    rw [exprsWithin, exprsStatements, clean_append]
    exact .congr (ha.and (checkArgs_judged hi args [] ((checkExpr ρ.cx arg).after s))) (by simp)
  | arg :: args, param :: params, s => by
    have hk := expectAssignable_judged (ρ := ρ) ((checkExpr ρ.cx arg).after s)
      ((checkExpr ρ.cx arg).result s) param arg.span
    rw [exprsWithin, exprsStatements, clean_append, List.zip_cons_cons, List.forall_mem_cons,
      and_and_and_comm, and_assoc]
    exact (checkExpr_judged hi arg s).typed (Q := fun ty => ty.isAssignable param = true ∧ _)
      (hk.and (checkArgs_judged hi args params _))

theorem checkItems_judged (hi : ρ.cx.module.importFailed = false) : ∀
    (items : List Expr) (common : Ty) (s : Checker),
    Judged ρ (checkItems ρ.cx common items) s
      (Clean ρ (exprsWithin items) (exprsStatements items) ∧
        ((items.map ρ.ty).foldlM Ty.common? common).isSome)
  | [], common, s => .congr (.pure common) (by simp [exprsWithin, exprsStatements])
  | item :: items, common, s => by
    rw [exprsWithin, exprsStatements, clean_append, and_assoc]
    have hj := joinElement_judged (ρ := ρ) ((checkExpr ρ.cx item).after s) common
      (item.typed ((checkExpr ρ.cx item).result s))
    have hs := checkItems_judged hi items
      ((joinElement common (item.typed ((checkExpr ρ.cx item).result s))).result
        ((checkExpr ρ.cx item).after s))
      ((joinElement common (item.typed ((checkExpr ρ.cx item).result s))).after
        ((checkExpr ρ.cx item).after s))
    refine (checkExpr_judged hi item s).typed
      (Q := fun ty => _ ∧ (((ty :: items.map ρ.ty).foldlM Ty.common? common).isSome = true)) ?_
    refine .congr (hj.and hs) ?_
    cases hc : common.common? ((checkExpr ρ.cx item).result s) with
    | none => simp [Expr.typed, hc]
    | some ty => simp [joinElement, Expr.typed, hc]

theorem checkParts_judged (hi : ρ.cx.module.importFailed = false) : ∀
    (parts : List Part) (s : Checker),
    Judged ρ (checkParts ρ.cx parts) s (Clean ρ (partsWithin parts) (partsStatements parts))
  | [], _ => .congr (.pure ()) (by simp [partsWithin, partsStatements])
  | .text _ :: parts, s => checkParts_judged hi parts s
  | .hole e :: parts, s => by
    rw [partsWithin, partsStatements, clean_append]
    exact (checkExpr_judged hi e s).discard.and (f := fun _ => _)
      (checkParts_judged hi parts ((checkExpr ρ.cx e).after s))

/-- The check of a statement is silent exactly where the rules are met within it. -/
theorem checkStmt_judged (hi : ρ.cx.module.importFailed = false) : ∀
    (stmt : Stmt) {ret : Ty} {s : Checker}, s.expected = some ret →
    Judged ρ (checkStmt ρ.cx stmt) s (Clean ρ stmt.within (stmt.statements ret))
  | .letStmt name _ none value _ _, ret, s, _ => by
    rw [Stmt.within, Stmt.statements, clean_stmt]
    exact ((checkExpr_judged hi value s).before (.declare name _)).congr (by simp [Stmt.Fits])
  | .letStmt name _ (some ty) value nameSpan _, ret, s, _ => by
    rw [Stmt.within, Stmt.statements, clean_stmt]
    have ha := checkAnnotation_judged hi ((checkExpr ρ.cx value).after s) ty nameSpan
    have hk := expectAssignable_judged (ρ := ρ)
      ((ρ.cx.checkAnnotation ty nameSpan).after ((checkExpr ρ.cx value).after s))
      ((checkExpr ρ.cx value).result s) ty value.span
    exact (checkExpr_judged hi value s).typed (Q := fun t => ρ.Known ty ∧ t.isAssignable ty = true)
      (ha.and (f := fun _ => _) (hk.before (f := fun _ => _) (.declare name ty)))
  | .returnStmt none span, ret, s, he => by
    rw [Stmt.within, Stmt.statements, clean_stmt]
    exact (returned_judged s .void ret span he).congr (by simp [Stmt.Fits])
  | .returnStmt (some value) _, ret, s, he => by
    rw [Stmt.within, Stmt.statements, clean_stmt]
    have hv : ((checkExpr ρ.cx value).after s).expected = some ret :=
      (checkExpr_keeps ρ.cx value s).expected.trans he
    exact (checkExpr_judged hi value s).typed (Q := fun ty => ty.isAssignable ret = true)
      (returned_judged _ _ ret value.span hv)
  | .ifStmt condition body none _, ret, s, he | .whileStmt condition body _, ret, s, he => by
    rw [Stmt.within, Stmt.statements, clean_stmt, clean_append, and_right_comm]
    have hx := (checkCondition_keeps ρ.cx condition s).expected.trans he
    exact checkBranch_judged (checkExpr_judged hi condition s) (checkBlock_judged hi body hx)
  | .ifStmt condition body (some otherwise) _, ret, s, he => by
    rw [Stmt.within, Stmt.statements, clean_stmt, clean_append, clean_append, and_right_comm,
      and_right_comm (b := Clean ρ body.within _)]
    have hx := (checkCondition_keeps ρ.cx condition s).expected.trans he
    have ho := (checkBranch_keeps ρ.cx condition body s).expected.trans he
    have hb := checkBranch_judged (checkExpr_judged hi condition s) (checkBlock_judged hi body hx)
    exact hb.and (f := fun _ => checkStmt ρ.cx otherwise) (checkStmt_judged hi otherwise ho)
  | .forStmt name nameSpan iterable body _, ret, s, he => by
    rw [Stmt.within, Stmt.statements, clean_stmt, clean_append, and_right_comm, and_assoc]
    have hx := (checkIterable_keeps ρ.cx iterable s).expected.trans he
    have hd := (declare_steps name nameSpan ((checkIterable ρ.cx iterable).result s)
      ((checkIterable ρ.cx iterable).after s).push).expected.trans hx
    have hb := ((checkBlock_judged hi body hd).after (f := fun _ => checkBlock ρ.cx body)
      (.declare name _)).inScope
    have hel := elementTy_judged (ρ := ρ) ((checkExpr ρ.cx iterable).after s)
      (iterable.typed ((checkExpr ρ.cx iterable).result s))
    exact (checkExpr_judged hi iterable s).typed (Q := fun ty => ty.IsIterable ∧ _)
      (hel.and (f := fun element => inScope do
        declare name element
        checkBlock ρ.cx body) hb)
  | .matchStmt scrutinee arms _, ret, s, he => by
    rw [Stmt.within, Stmt.statements, clean_stmt, clean_append, and_assoc]
    have hx := (checkExpr_keeps ρ.cx scrutinee s).expected.trans he
    exact (checkExpr_judged hi scrutinee s).typed
      (Q := fun ty => _ ∧ ∀ arm ∈ arms, arm.pattern ≠ .wildcard → ty.IsOptional)
      (checkArms_judged hi arms _ hx)
  | .block body, ret, s, he => by
    rw [Stmt.within, Stmt.statements, clean_stmt]
    exact (checkBlock_judged hi body he).congr (by simp [Stmt.Fits])
  | .expr value, ret, s, _ => by
    rw [Stmt.within, Stmt.statements, clean_stmt]
    exact (checkExpr_judged hi value s).discard.congr (by simp [Stmt.Fits])

theorem checkStmts_judged (hi : ρ.cx.module.importFailed = false) : ∀
    (stmts : List Stmt) {ret : Ty} {s : Checker}, s.expected = some ret →
    Judged ρ (checkStmts ρ.cx stmts) s (Clean ρ (stmtsWithin stmts) (stmtsStatements ret stmts))
  | [], _, _, _ => .congr (.pure ()) (by simp [stmtsWithin, stmtsStatements])
  | stmt :: stmts, ret, s, he => by
    rw [stmtsWithin, stmtsStatements, clean_append]
    have hx := (checkStmt_steps ρ.cx stmt s).expected.trans he
    exact (checkStmt_judged hi stmt he).and (f := fun _ => _) (checkStmts_judged hi stmts hx)

theorem checkBlock_judged (hi : ρ.cx.module.importFailed = false) : ∀
    (body : Block) {ret : Ty} {s : Checker}, s.expected = some ret →
    Judged ρ (checkBlock ρ.cx body) s (Clean ρ body.within (body.statements ret))
  | ⟨stmts, _⟩, ret, s, he => by
    have hp : s.push.expected = some ret := he
    exact (checkStmts_judged hi stmts hp).inScope

theorem checkArms_judged (hi : ρ.cx.module.importFailed = false) : ∀
    (arms : List Arm) (scrutinee : Ty) {ret : Ty} {s : Checker},
    s.expected = some ret → Judged ρ (checkArms ρ.cx scrutinee arms) s
      (Clean ρ (armsWithin arms) (armsStatements ret arms) ∧
        ∀ arm ∈ arms, arm.pattern ≠ .wildcard → scrutinee.IsOptional)
  | [], _, _, _, _ => .congr (.pure ()) (by simp [armsWithin, armsStatements])
  | ⟨pattern, body, span⟩ :: arms, scrutinee, ret, s, he => by
    have hd := (declarePattern_steps scrutinee pattern span s.push).expected.trans he
    have hx := (checkArms_keeps ρ.cx [⟨pattern, body, span⟩] scrutinee s).expected.trans he
    have hb := (declarePattern_judged (ρ := ρ) s.push scrutinee pattern span).and (f := fun _ => _)
      (checkBlock_judged hi body hd)
    have ht := hb.inScope.and (f := fun _ => _) (checkArms_judged hi arms scrutinee hx)
    rw [armsWithin, armsStatements, clean_append, List.forall_mem_cons]
    exact ht.congr ((and_congr_left' and_comm).trans and_and_and_comm)

end

theorem checkFunction_judged (hi : ρ.cx.module.importFailed = false) (f : FunctionDecl)
    (s : Checker) :
    Judged ρ (checkFunction ρ.cx f) s (f.Fits ρ ∧ Clean ρ f.body.within f.statements) := by
  let inside : Checker := { s with expected := some f.ret }
  have ha := checkAnnotation_judged hi inside f.ret f.nameSpan
  let start := ((ρ.cx.checkAnnotation f.ret f.nameSpan).after inside).push
  have he : start.expected = some f.ret :=
    (checkAnnotation_keeps ρ.cx f.ret f.nameSpan inside).expected
  have hp := declareParams_judged hi start f.params
  have hx := (declareParams_steps ρ.cx f.params start).expected.trans he
  have hb := hp.and (f := fun _ => checkBlock ρ.cx f.body) (checkBlock_judged hi f.body hx)
  exact .congr (ha.and (f := fun _ => inScope _) hb.inScope).returning and_assoc.symm

theorem checkField_judged (hi : ρ.cx.module.importFailed = false) (f : FieldDecl) (s : Checker) :
    Judged ρ (checkField ρ.cx f) s
      (f.Fits ρ ∧ Clean ρ (exprsWithin f.initial.toList) (exprsStatements f.initial.toList)) := by
  have ha := checkAnnotation_judged hi s f.ty f.span
  unfold FieldDecl.Fits
  cases hf : f.initial with
  | none =>
    have ht : Judged ρ (checkField ρ.cx f) s (ρ.Known f.ty) := by
      unfold checkField
      rw [hf]
      exact ha.before (.pure ())
    exact ht.congr (by simp [exprsWithin, exprsStatements])
  | some value =>
    let start := (ρ.cx.checkAnnotation f.ty f.span).after s
    have hk := expectAssignable_judged (ρ := ρ) ((checkExpr ρ.cx value).after start)
      ((checkExpr ρ.cx value).result start) f.ty value.span
    have hv := (checkExpr_judged hi value start).typed (Q := fun ty => ty.isAssignable f.ty = true)
      (f := fun ty => expectAssignable ty f.ty value.span) hk
    have ht : Judged ρ (checkField ρ.cx f) s
        (ρ.Known f.ty ∧ Clean ρ value.within value.statements ∧
          (ρ.ty value).isAssignable f.ty = true) := by
      unfold checkField
      rw [hf]
      exact ha.and hv
    rw [Option.toList_some, exprsWithin, exprsWithin, exprsStatements, exprsStatements,
      List.append_nil, List.append_nil]
    refine ht.congr ((and_congr_right' and_comm).trans ?_)
    simp [and_assoc]

/-- Going through a list, where each element is judged by what it declares and by what is within. -/
theorem Judged.forM_clean {β : Type} {f : β → Check PUnit} {P : β → Prop} {g : β → List Expr}
    {h : β → List (Ty × Stmt)} (hj : ∀ a s, Judged ρ (f a) s (P a ∧ Clean ρ (g a) (h a)))
    (as : List β) (s : Checker) :
    Judged ρ (as.forM f) s ((∀ a ∈ as, P a) ∧ Clean ρ (as.flatMap g) (as.flatMap h)) := by
  rw [clean_flatMap, ← forall₂_and]
  exact Judged.forM hj as s

theorem checkClass_judged (hi : ρ.cx.module.importFailed = false) (c : ClassDecl) (s : Checker) :
    Judged ρ (checkClass ρ.cx c) s
      (((∀ f ∈ c.fields, f.Fits ρ) ∧ ∀ f ∈ c.methods, f.Fits ρ) ∧
        Clean ρ c.within c.statements) := by
  let inside : Checker := { s with enclosing := some c.name }
  have hf := Judged.forM_clean (checkField_judged hi) c.fields inside
  have hm := Judged.forM_clean (checkFunction_judged hi) c.methods
    ((c.fields.forM (checkField ρ.cx)).after inside)
  rw [flatMap_initials rfl (by simp [exprsWithin]),
    flatMap_initials rfl (by simp [exprsStatements])] at hf
  refine .congr (hf.and (f := fun _ => c.methods.forM (checkFunction ρ.cx)) hm).inClass ?_
  rw [ClassDecl.within, ClassDecl.statements, clean_append, and_and_and_comm]
  rfl

/-- The check of a module is silent exactly where the rules are met everywhere in it. -/
theorem checkModule_judged (hi : ρ.cx.module.importFailed = false) (s : Checker) :
    Judged ρ (checkModule ρ.cx) s (ρ.cx.module.Obeys ρ) := by
  have hc := Judged.forM_clean (checkClass_judged hi) ρ.cx.module.decls.classes s.push
  have hf := Judged.forM_clean (checkFunction_judged hi) ρ.cx.module.decls.functions
    ((ρ.cx.module.decls.classes.forM (checkClass ρ.cx)).after s.push)
  have hb := hc.and (f := fun _ => ρ.cx.module.decls.functions.forM (checkFunction ρ.cx)) hf
  refine hb.inScope.congr ?_
  rw [and_and_and_comm, ← clean_append]
  constructor
  · rintro ⟨⟨hclasses, hfunctions⟩, hclean⟩
    refine ⟨hclean.1, hclean.2, ?_, ?_⟩
    · intro f hf
      rcases List.mem_append.1 hf with hf | hf
      · obtain ⟨c, hc, hf⟩ := List.mem_flatMap.1 hf
        exact (hclasses c hc).2 f hf
      · exact hfunctions f hf
    · intro f hf
      obtain ⟨c, hc, hf⟩ := List.mem_flatMap.1 hf
      exact (hclasses c hc).1 f hf
  · intro h
    refine ⟨⟨fun c hc => ⟨fun f hf => ?_, fun f hf => ?_⟩, fun f hf => ?_⟩, h.exprs, h.statements⟩
    · exact h.fields f (List.mem_flatMap.2 ⟨c, hc, hf⟩)
    · exact h.callables f (List.mem_append_left _ (List.mem_flatMap.2 ⟨c, hc, hf⟩))
    · exact h.callables f (List.mem_append_right _ hf)

end

/-- Where the check of a module reports nothing, the rules are met. -/
theorem obeys_of_silent {r : Registry} {path : String} {m : Module} (hm : r.find? path = some m)
    (hn : m.Numbered) (hi : m.importFailed = false)
    (hs : (r.check (r.names path)).errors = []) :
    m.Obeys ⟨r.checkContext path m, r.check (r.names path)⟩ := by
  let ρ : Typing := ⟨r.checkContext path m, r.check (r.names path)⟩
  have ha : ρ.Agrees ((checkModule ρ.cx).after {}) := fun t ht => typeOf?_of_mem hm hn ht
  exact ((checkModule_judged (ρ := ρ) hi {}).silent ha).1 (errors_of_silent hm hs)

/-- **The check is silent where the rules are met.** The check of a module without a failed import
reports nothing if and only if the typing rules, read off the types that the check has recorded in
the end, are met by every expression, statement, function and field of the module. -/
theorem check_silent_iff {r : Registry} {path : String} {m : Module} (hm : r.find? path = some m)
    (hn : m.Numbered) (hi : m.importFailed = false) :
    (r.check (r.names path)).errors = [] ↔
      m.Obeys ⟨r.checkContext path m, r.check (r.names path)⟩ := by
  let ρ : Typing := ⟨r.checkContext path m, r.check (r.names path)⟩
  have hj := checkModule_judged (ρ := ρ) hi {}
  have ha : ρ.Agrees ((checkModule ρ.cx).after {}) := fun t ht => typeOf?_of_mem hm hn ht
  have he : (r.check (r.names path)).errors = ((checkModule ρ.cx).after {}).errors.toList := by
    rw [check_eq hm]
  rw [he, Array.toList_eq_nil_iff]
  exact hj.silent ha

/-- The module calls something that is not known, which the check of names has reported; the check
of types has nothing to add, and the rules are met. -/
theorem check_silent_iff_shadowing :
    (Registry.empty.insert shadowing).find? "a" = some shadowing ∧ shadowing.Numbered ∧
      shadowing.importFailed = false ∧
      shadowing.Obeys ⟨(Registry.empty.insert shadowing).checkContext "a" shadowing,
        (Registry.empty.insert shadowing).check ((Registry.empty.insert shadowing).names "a")⟩ := by
  have hm : (Registry.empty.insert shadowing).find? "a" = some shadowing := rfl
  have hn : shadowing.Numbered := by decide
  have he : ((Registry.empty.insert shadowing).check
      ((Registry.empty.insert shadowing).names "a")).errors = [] := by decide
  exact ⟨hm, hn, rfl, (check_silent_iff hm hn rfl).1 he⟩

end MgLang
