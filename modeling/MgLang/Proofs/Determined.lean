import MgLang.Proofs.DeclaredTypes
import MgLang.Proofs.Joins
import MgLang.Proofs.Silence
/-!
# Where no type is unknown

An unknown type fits everywhere, so it has to come from somewhere: from a fault that has been
reported, from the built-in library, or from `None` and from arrays without elements, which leave
the type open. `types_writable` says that nothing else makes a type unknown in a module whose report
is without a fault, but for one expression: a `this` outside of any class, which has no type and is
no fault (`this_unknown`).

The proof goes along the visits of the check. A visit gets a type that can be written if the visits
inside it and the variables in sight have (`visits_writable`); what a visit has by itself, from the
names, the typing rules and the declarations, is gathered in `Visit.Settled`.
-/

namespace MgLang

open Check

/-! ### Types made of types that can be written -/

namespace Ty

/-- A common type says at least as much as the right one of the two types. -/
theorem common?_writable {a b c : Ty} (h : a.common? b = some c) (hb : b.Writable) : c.Writable := by
  have hbc : b ≤ c := ((common?_le_iff h c).1 le_rfl).2
  exact Below.writable hbc hb

theorem Writable.present {ty : Ty} (h : ty.Writable) (ho : ty.IsOptional) : ty.present.Writable := by
  rcases ho with rfl | ⟨inner, rfl⟩
  · exact h.elim
  · exact h

/-- The members of built-in types are made of what these hold. -/
theorem Writable.builtinMember {ty member : Ty} {name : String} (h : ty.Writable)
    (hm : ty.builtinMember? name = some member) : member.Writable := by
  cases ty with
  | array inner | option inner =>
    have hi : inner.Writable := h
    simp only [builtinMember?] at hm
    split at hm <;> cases hm <;> simp [Writable, TysWritable, hi]
  | string =>
    simp only [builtinMember?] at hm
    split at hm <;> cases hm <;> simp [Writable, TysWritable]
  | _ => cases hm

end Ty

section

variable {cx : CheckContext} (s : Checker)

theorem binaryTy_writable {op : BinaryOp} (left right : TypedNode) (span : Span)
    (h : op.Fits left.ty right.ty) (hr : right.ty.Writable) :
    ((binaryTy op left right span).result s).Writable := by
  unfold binaryTy
  unfold BinaryOp.Fits at h
  by_cases hop : op.isLogical = true
  · rw [if_pos hop]
    trivial
  · rw [if_neg hop] at h ⊢
    obtain ⟨common, hc, h⟩ := h
    have hw : common.Writable := Ty.common?_writable hc hr
    rw [hc]
    dsimp only
    by_cases hcmp : op.isComparison = true
    · rw [if_pos hcmp]
      trivial
    · rw [if_neg hcmp]
      by_cases hn : common.isNumeric = true
      · rw [if_pos hn]
        exact hw
      · rw [if_neg hn, if_pos (by simpa [hcmp, hn] using h)]
        trivial

theorem unaryTy_writable {op : UnaryOp} (operand : TypedNode) (h : op.Fits operand.ty)
    (hw : operand.ty.Writable) : ((unaryTy op operand).result s).Writable := by
  cases op with
  | negate =>
    have hn : operand.ty.isNumeric = true := h
    simp only [unaryTy, if_pos hn]
    exact hw
  | not => trivial

theorem elementTy_writable (iterable : TypedNode) (h : iterable.ty.IsIterable)
    (hw : iterable.ty.Writable) : ((elementTy iterable).result s).Writable := by
  unfold elementTy
  rcases h with h | ⟨inner, h⟩
  · rw [h] at hw
    exact hw.elim
  · rw [h] at hw ⊢
    exact hw

theorem indexedTy_writable (object : TypedNode) (h : object.ty = .string ∨ object.ty.IsIterable)
    (hw : object.ty.Writable) : ((indexedTy object).result s).Writable := by
  unfold indexedTy
  split
  · trivial
  · next hne => exact elementTy_writable s object (h.resolve_left hne) hw

theorem appliedTy_writable {ρ : Typing} (callee : Expr) {args : List Expr} {ty : Ty} (span : Span)
    (h : ρ.Accepts ty args) (hw : ty.Writable) :
    ((ρ.cx.appliedTy callee args span ty).result s).Writable := by
  rcases h with rfl | ⟨params, ret, rfl, -⟩
  · exact hw.elim
  · exact hw.2

/-- Whatever class is found has been read from a file. -/
theorem class?_declared {n : Nat} (hc : cx.registry.Counted n) {name : String} {owner : Module}
    {decl : ClassDecl} (h : cx.class? name = some (owner, decl)) : decl.Declared := by
  unfold CheckContext.class? Registry.classDecl? at h
  obtain ⟨⟨m, idx⟩, hfind, h⟩ := Option.bind_eq_some_iff.1 h
  obtain ⟨decl', hget, h⟩ := Option.bind_eq_some_iff.1 h
  cases h
  rw [Registry.findClass?_eq] at hfind
  obtain ⟨path, -, hin⟩ := List.exists_of_findSome?_eq_some hfind
  obtain ⟨m', hm, hhead⟩ := Option.bind_eq_some_iff.1 hin
  obtain rfl : owner = m' := Registry.fst_of_mem_classesWhere (List.mem_of_head? hhead)
  exact (hc path owner hm).classes decl (List.mem_of_getElem? hget)

theorem valueMemberTy_writable {n : Nat} (hc : cx.registry.Counted n) {receiver : Ty}
    {name : String} {fromClass : Bool} (span : Span) (h : cx.HasMember receiver name fromClass)
    (hw : receiver.Writable) :
    ((cx.valueMemberTy receiver name fromClass span).result s).Writable := by
  unfold CheckContext.valueMemberTy
  split
  · next className =>
    obtain ⟨owner, decl, member, hcls, hmem, hstatic, huse⟩ := h
    have hs : ¬ (fromClass && !member.isStatic) = true := by simpa using hstatic
    simp only [CheckContext.classMemberTy, hcls, hmem, if_neg hs, if_pos huse]
    exact (class?_declared hc hcls).member hmem
  · exact hw.elim
  · next hn hu =>
    cases hb : receiver.builtinMember? name with
    | some ty => exact hw.builtinMember hb
    | none =>
      unfold CheckContext.HasMember at h
      split at h
      · next className => exact absurd rfl (hn className)
      · exact absurd rfl hu
      · simp [hb] at h

theorem instanceTy_writable {className : String} (span : Span) (h : cx.OffersClass className) :
    ((cx.instanceTy className span).result s).Writable := by
  obtain ⟨owner, decl, hcls, huse⟩ := h
  simp only [CheckContext.instanceTy, hcls, if_pos huse]
  trivial

end

/-! ### What a visit has by itself -/

/-- The expression leaves a type open: `None`, or an array without elements. -/
def Expr.isOpen : Expr → Bool
  | .noneLit _ | .array _ [] => true
  | _ => false

/-- The expression is `this`. -/
def Expr.isThis : Expr → Bool
  | .this _ => true
  | _ => false

/-- What is called there, or has a member taken from it, is a value and has a type. -/
def Expr.TakesValue (names : Names) : Expr → Prop
  | .call _ callee _ => names.intrinsic? callee = none
  | .member _ object _ _ => names.isBuiltin object = false ∧ names.aliased? object = none
  | _ => True

/-- The type that the check finds at a visit. -/
def Visit.ty (cx : CheckContext) (v : Visit) : Ty :=
  (checkExpr cx v.expr).result v.state

/-- Nothing at the visit itself makes its type unknown. What is inside it is left aside, and a
`this` has a type inside a class only. -/
structure Visit.Settled (ρ : Typing) (inClass : Bool) (v : Visit) : Prop where
  /-- The table has the type that the visit finds. -/
  agrees : ρ.ty v.expr = v.ty ρ.cx
  fits : v.expr.Fits ρ
  declared : v.expr.Declared
  closed : v.expr.isOpen = false
  value : v.expr.TakesValue ρ.cx.names
  this : v.expr.isThis = true → inClass = true
  /-- An identifier has the type of a variable in sight, or one that can be written. -/
  ident : ∀ node name, v.expr = .ident node name →
    (∃ l ∈ v.locals, v.ty ρ.cx = l.ty) ∨ (v.ty ρ.cx).Writable

/-- All visits are settled, and the statements are in order. -/
structure Settled (ρ : Typing) (inClass : Bool) (vs : List Visit) (ss : List (Ty × Stmt)) :
    Prop where
  visits : ∀ v ∈ vs, v.Settled ρ inClass
  stmts : ∀ s ∈ ss, s.2.Fits ρ s.1 ∧ s.2.Declared

section

variable {ρ : Typing} {inClass : Bool} {v : Visit} {vs vs' : List Visit} {ss ss' : List (Ty × Stmt)}

theorem settled_append :
    Settled ρ inClass (vs ++ vs') (ss ++ ss') ↔
      Settled ρ inClass vs ss ∧ Settled ρ inClass vs' ss' := by
  constructor
  · rintro ⟨hv, hs⟩
    rw [List.forall_mem_append] at hv hs
    exact ⟨⟨hv.1, hs.1⟩, ⟨hv.2, hs.2⟩⟩
  · rintro ⟨h, h'⟩
    exact ⟨List.forall_mem_append.2 ⟨h.visits, h'.visits⟩,
      List.forall_mem_append.2 ⟨h.stmts, h'.stmts⟩⟩

theorem settled_cons : Settled ρ inClass (v :: vs) ss ↔
    v.Settled ρ inClass ∧ Settled ρ inClass vs ss := by
  constructor
  · rintro ⟨hv, hs⟩
    rw [List.forall_mem_cons] at hv
    exact ⟨hv.1, hv.2, hs⟩
  · rintro ⟨h, h'⟩
    exact ⟨List.forall_mem_cons.2 ⟨h, h'.visits⟩, h'.stmts⟩

theorem settled_stmt {ret : Ty} {stmt : Stmt} : Settled ρ inClass vs (ss ++ [(ret, stmt)]) ↔
    Settled ρ inClass vs ss ∧ stmt.Fits ρ ret ∧ stmt.Declared := by
  constructor
  · rintro ⟨hv, hs⟩
    rw [List.forall_mem_append, List.forall_mem_singleton] at hs
    exact ⟨⟨hv, hs.1⟩, hs.2⟩
  · rintro ⟨h, h'⟩
    exact ⟨h.visits, List.forall_mem_append.2 ⟨h.stmts, List.forall_mem_singleton.2 h'⟩⟩

end

/-- All visits find types that can be written. -/
def AllWritable (cx : CheckContext) (vs : List Visit) : Prop :=
  ∀ v ∈ vs, (v.ty cx).Writable

namespace AllWritable

variable {cx : CheckContext} {v : Visit} {vs vs' : List Visit}

theorem nil : AllWritable cx [] := List.forall_mem_nil _

theorem append (h : AllWritable cx vs) (h' : AllWritable cx vs') : AllWritable cx (vs ++ vs') :=
  List.forall_mem_append.2 ⟨h, h'⟩

theorem cons (h : (v.ty cx).Writable) (hs : AllWritable cx vs) : AllWritable cx (v :: vs) :=
  List.forall_mem_cons.2 ⟨h, hs⟩

end AllWritable

/-- Where a check stands: perhaps in a class, and with variables of types that can be written. -/
structure Checker.Within (inClass : Bool) (s : Checker) (Γ : List Local) : Prop where
  enclosing : inClass = true → s.enclosing.isSome
  locals : ∀ l ∈ Γ, l.ty.Writable

namespace Checker.Within

variable {inClass : Bool} {s s' : Checker} {Γ : List Local}

theorem push (h : s.Within inClass Γ) : s.push.Within inClass Γ :=
  ⟨h.enclosing, h.locals⟩

theorem returning (h : s.Within inClass Γ) (ty : Ty) :
    Checker.Within inClass { s with expected := some ty } Γ :=
  ⟨h.enclosing, h.locals⟩

theorem steps {ls : List Local} {ns : List Node} (h : s.Within inClass Γ)
    (hs : Checker.Steps ls ns s s') (hl : ∀ l ∈ ls, l.ty.Writable) : s'.Within inClass (ls ++ Γ) :=
  ⟨fun hc => hs.enclosing ▸ h.enclosing hc, List.forall_mem_append.2 ⟨hl, h.locals⟩⟩

theorem keeps {α : Type} {x : Check α} {ns : List Node} (h : s.Within inClass Γ)
    (hx : Keeps x ns) : (x.after s).Within inClass Γ :=
  h.steps (hx s) (List.forall_mem_nil _)

end Checker.Within

theorem paramLocals_writable {params : List Param} (h : ParamsWritable params) :
    ∀ l ∈ paramLocals params, l.ty.Writable := by
  intro l hl
  obtain ⟨p, hp, rfl⟩ := List.mem_map.1 (List.mem_reverse.1 hl)
  exact h p hp

theorem expectCallable_keeps (callee : Expr) (received : Nat) (span : Span) (calleeTy : Ty) :
    Keeps (CheckContext.expectCallable callee received span calleeTy) [] := by
  cases calleeTy with
  | fn params ret =>
    exact .after (fun _ => .pure _) (.ite (.pure ()) (.report _ _))
  | _ => exact .pure _

/-- An expression is the first of the visits within it. -/
theorem mem_visits_self (cx : CheckContext) (Γ : List Local) (s : Checker) (e : Expr) :
    ⟨e, s, Γ⟩ ∈ e.visits cx Γ s := by
  unfold Expr.visits
  exact List.mem_cons_self

/-! ### Along the visits -/

section

variable {ρ : Typing} {inClass : Bool} {n : Nat}

/-- The table has the type that the check finds for an expression. -/
theorem Settled.agrees {e : Expr} {s : Checker} {Γ : List Local} {ss : List (Ty × Stmt)}
    (h : Settled ρ inClass (e.visits ρ.cx Γ s) ss) : ρ.ty e = (checkExpr ρ.cx e).result s :=
  (h.visits _ (mem_visits_self ρ.cx Γ s e)).agrees

-- The induction is on the tree. It carries `Checker.Within`: a variable that a visit sees got its type
-- from a declaration, or from a visit before.

mutual

/-- Where the visits within an expression are settled, they find types that can be written. -/
theorem visits_writable (hc : ρ.cx.registry.Counted n) : ∀ (e : Expr) {s : Checker}
    {Γ : List Local}, s.Within inClass Γ → Settled ρ inClass (e.visits ρ.cx Γ s) e.statements →
    AllWritable ρ.cx (e.visits ρ.cx Γ s)
  | .int _ _, _, _, _, _ | .float _ _, _, _, _, _ | .string _ _, _, _, _, _
  | .bool _ _, _, _, _, _ => by
    rw [Expr.visits]
    exact .cons trivial .nil
  | .noneLit _, _, _, _, hv => by
    rw [Expr.visits, settled_cons] at hv
    exact absurd hv.1.closed (by simp [Expr.isOpen])
  | .this node, s, _, h, hv => by
    rw [Expr.visits, settled_cons] at hv
    obtain ⟨name, hn⟩ := Option.isSome_iff_exists.1 (h.enclosing (hv.1.this rfl))
    have ht : (checkExpr ρ.cx (.this node)).result s = .named name := by
      show (s.enclosing.map Ty.named).getD .unknown = _
      rw [hn]
      rfl
    rw [Expr.visits]
    refine .cons ?_ .nil
    rw [Visit.ty, ht]
    trivial
  | .ident node name, s, _, h, hv => by
    rw [Expr.visits, settled_cons] at hv
    rw [Expr.visits]
    refine .cons ?_ .nil
    rcases hv.1.ident node name rfl with ⟨l, hl, he⟩ | hw
    · rw [he]
      exact h.locals l hl
    · exact hw
  | .interpolated node parts, s, _, h, hv => by
    rw [Expr.visits, Expr.statements, settled_cons] at hv
    rw [Expr.visits]
    exact .cons trivial (partsVisits_writable hc parts h hv.2)
  | .someOf node inner, s, Γ, h, hv => by
    rw [Expr.visits, Expr.statements, settled_cons] at hv
    rw [Expr.visits]
    have hi := visits_writable hc inner h hv.2
    have ht : ((checkExpr ρ.cx inner).result s).Writable := hi _ (mem_visits_self _ Γ s inner)
    exact .cons ht hi
  | .binary node op left right, s, Γ, h, hv => by
    rw [Expr.visits, Expr.statements, settled_cons, settled_append] at hv
    obtain ⟨hv, hvl, hvr⟩ := hv
    rw [Expr.visits]
    have hl := visits_writable hc left h hvl
    have hr := visits_writable hc right (h.keeps (checkExpr_keeps ρ.cx left)) hvr
    have hfits : op.Fits (ρ.ty left) (ρ.ty right) := hv.fits
    rw [hvl.agrees, hvr.agrees] at hfits
    have ht := binaryTy_writable ((checkExpr ρ.cx right).after ((checkExpr ρ.cx left).after s))
      (left.typed _) (right.typed _) node.span hfits (hr _ (mem_visits_self _ Γ _ right))
    exact .cons ht (hl.append hr)
  | .unary node op operand, s, Γ, h, hv => by
    rw [Expr.visits, Expr.statements, settled_cons] at hv
    rw [Expr.visits]
    have ho := visits_writable hc operand h hv.2
    have hfits : op.Fits (ρ.ty operand) := hv.1.fits
    rw [hv.2.agrees] at hfits
    have ht := unaryTy_writable ((checkExpr ρ.cx operand).after s) (operand.typed _) hfits
      (ho _ (mem_visits_self _ Γ _ operand))
    exact .cons ht ho
  | .assign node target value, s, Γ, h, hv => by
    rw [Expr.visits, Expr.statements, settled_cons, settled_append] at hv
    rw [Expr.visits]
    have ht := visits_writable hc target h hv.2.1
    have hw := visits_writable hc value (h.keeps (checkExpr_keeps ρ.cx target)) hv.2.2
    have hty : ((checkExpr ρ.cx target).result s).Writable := ht _ (mem_visits_self _ Γ _ target)
    exact .cons hty (ht.append hw)
  | .call node callee args, s, Γ, h, hv => by
    have hi : ρ.cx.names.intrinsic? callee = none :=
      (hv.visits _ (mem_visits_self _ Γ s (.call node callee args))).value
    rw [Expr.visits, Expr.statements, settled_cons] at hv
    rw [Expr.visits]
    simp only [hi, settled_append] at hv ⊢
    obtain ⟨hv, hvc, hva⟩ := hv
    have hcallee := visits_writable hc callee h hvc
    have hk := (checkExpr_keeps ρ.cx callee).before fun ty =>
      expectCallable_keeps callee args.length node.span ty
    have hargs := argsVisits_writable hc args _ (h.keeps hk) hva
    have hfits : ρ.CallFits callee args := hv.fits
    have haccepts : ρ.Accepts (ρ.ty callee) args := by simpa [Typing.CallFits, hi] using hfits
    rw [hvc.agrees] at haccepts
    have ht := appliedTy_writable ((checkExpr ρ.cx callee).after s) callee node.span haccepts
      (hcallee _ (mem_visits_self _ Γ _ callee))
    refine .cons ?_ (hcallee.append hargs)
    rw [Visit.ty, checkExpr_call ρ.cx hi]
    exact ht
  | .member node object name nameSpan, s, Γ, h, hv => by
    obtain ⟨hb, ha⟩ : ρ.cx.names.isBuiltin object = false ∧ ρ.cx.names.aliased? object = none :=
      (hv.visits _ (mem_visits_self _ Γ s (.member node object name nameSpan))).value
    rw [Expr.visits, Expr.statements, settled_cons] at hv
    rw [Expr.visits]
    simp only [hb, ha, Option.isSome_none, Bool.or_false, Bool.false_eq_true, if_false] at hv ⊢
    have ho := visits_writable hc object h hv.2
    have hfits := hv.1.fits
    simp only [Expr.Fits, hb, ha, Bool.false_eq_true, if_false] at hfits
    rw [hv.2.agrees] at hfits
    have ht := valueMemberTy_writable ((checkExpr ρ.cx object).after s) hc nameSpan hfits
      (ho _ (mem_visits_self _ Γ _ object))
    refine .cons ?_ ho
    rw [Visit.ty, checkExpr_member_value ρ.cx hb ha]
    exact ht
  | .index node object index, s, Γ, h, hv => by
    rw [Expr.visits, Expr.statements, settled_cons, settled_append] at hv
    obtain ⟨hv, hvo, hvi⟩ := hv
    rw [Expr.visits]
    have ho := visits_writable hc object h hvo
    have hi := visits_writable hc index (h.keeps (checkExpr_keeps ρ.cx object)) hvi
    have hfits : ρ.ty object = .string ∨ (ρ.ty object).IsIterable := hv.fits.2
    rw [hvo.agrees] at hfits
    have ht := indexedTy_writable
      ((expectAssignable ((checkExpr ρ.cx index).result ((checkExpr ρ.cx object).after s)) .int
        index.span).after ((checkExpr ρ.cx index).after ((checkExpr ρ.cx object).after s)))
      (object.typed _) hfits (ho _ (mem_visits_self _ Γ _ object))
    exact .cons ht (ho.append hi)
  | .new node className classSpan args, s, _, h, hv => by
    rw [Expr.visits, Expr.statements, settled_cons] at hv
    rw [Expr.visits]
    have hfits : ρ.cx.OffersClass className := hv.1.fits
    exact .cons (instanceTy_writable ((checkArgs ρ.cx [] args).after s) classSpan hfits)
      (argsVisits_writable hc args [] h hv.2)
  | .array node items, s, _, h, hv => by
    rw [Expr.visits, Expr.statements, settled_cons] at hv
    rw [Expr.visits]
    have hfits : ((items.map ρ.ty).foldlM Ty.common? .unknown).isSome := hv.1.fits
    obtain ⟨hi, ht⟩ := itemsVisits_writable hc items .unknown h hv.2 hfits
    have hne : items ≠ [] := by
      rintro rfl
      exact absurd hv.1.closed (by simp [Expr.isOpen])
    have hw : ((checkItems ρ.cx .unknown items).result s).Writable := ht (.inl hne)
    exact .cons hw hi
  | .lambda node params ret body, s, _, h, hv => by
    rw [Expr.visits, Expr.statements, settled_cons] at hv
    rw [Expr.visits]
    obtain ⟨hp, hr⟩ : ParamsWritable params ∧ ret.Writable := hv.1.declared
    have hs := declareParams_steps ρ.cx params (Checker.push { s with expected := some ret })
    have hi := (h.returning ret).push.steps hs (paramLocals_writable hp)
    have ht : (Ty.fn (params.map (·.ty)) ret).Writable := ⟨hp.tys, hr⟩
    exact .cons ht (blockVisits_writable hc body hi hv.2)

theorem argsVisits_writable (hc : ρ.cx.registry.Counted n) : ∀ (args : List Expr)
    (params : List Ty) {s : Checker} {Γ : List Local}, s.Within inClass Γ →
    Settled ρ inClass (argsVisits ρ.cx params Γ s args) (exprsStatements args) →
    AllWritable ρ.cx (argsVisits ρ.cx params Γ s args)
  | [], _, _, _, _, _ => by
    rw [argsVisits]
    exact .nil
  | arg :: args, params, _, _, h, hv => by
    rw [argsVisits, exprsStatements, settled_append] at hv
    rw [argsVisits]
    have hk := checkArgs_keeps ρ.cx [arg] params
    exact (visits_writable hc arg h hv.1).append
      (argsVisits_writable hc args params.tail (h.keeps hk) hv.2)

/-- The type of the elements can be written as soon as there is an element. Before the first one it
is unknown. -/
theorem itemsVisits_writable (hc : ρ.cx.registry.Counted n) : ∀ (items : List Expr) (common : Ty)
    {s : Checker} {Γ : List Local}, s.Within inClass Γ →
    Settled ρ inClass (itemsVisits ρ.cx common Γ s items) (exprsStatements items) →
    ((items.map ρ.ty).foldlM Ty.common? common).isSome →
    AllWritable ρ.cx (itemsVisits ρ.cx common Γ s items) ∧
      (items ≠ [] ∨ common.Writable → ((checkItems ρ.cx common items).result s).Writable)
  | [], common, _, _, _, _, _ => by
    rw [itemsVisits]
    refine ⟨.nil, ?_⟩
    rintro (h | h)
    · exact absurd rfl h
    · exact h
  | item :: items, common, s, Γ, h, hv, hfits => by
    rw [itemsVisits, exprsStatements, settled_append] at hv
    obtain ⟨hvi, hvs⟩ := hv
    rw [itemsVisits]
    have hi := visits_writable hc item h hvi
    rw [List.map_cons, List.foldlM_cons, hvi.agrees] at hfits
    obtain ⟨joined, hj⟩ : ∃ joined,
        common.common? ((checkExpr ρ.cx item).result s) = some joined := by
      cases hj : common.common? ((checkExpr ρ.cx item).result s) with
      | none => simp [hj] at hfits
      | some joined => exact ⟨joined, rfl⟩
    have hw : joined.Writable := Ty.common?_writable hj (hi _ (mem_visits_self _ Γ s item))
    have hjoin := joinElement_of_common hj item
    have hr : (checkItems ρ.cx common [item]).result s = joined := by
      show (joinElement common (item.typed ((checkExpr ρ.cx item).result s))).result _ = joined
      rw [hjoin]
      rfl
    rw [hr] at hvs ⊢
    have hk := checkItems_keeps ρ.cx [item] common
    obtain ⟨hs, ht⟩ := itemsVisits_writable hc items joined (h.keeps hk) hvs
      (by simpa [hj] using hfits)
    refine ⟨hi.append hs, fun _ => ?_⟩
    have he : (checkItems ρ.cx common (item :: items)).result s =
        (checkItems ρ.cx joined items).result ((checkItems ρ.cx common [item]).after s) := by
      rw [← hr]
      rfl
    rw [he]
    exact ht (.inr hw)

theorem partsVisits_writable (hc : ρ.cx.registry.Counted n) : ∀ (parts : List Part) {s : Checker}
    {Γ : List Local}, s.Within inClass Γ →
    Settled ρ inClass (partsVisits ρ.cx Γ s parts) (partsStatements parts) →
    AllWritable ρ.cx (partsVisits ρ.cx Γ s parts)
  | [], _, _, _, _ => by
    rw [partsVisits]
    exact .nil
  | .text _ :: parts, _, _, h, hv => by
    rw [partsVisits, partsStatements] at hv
    rw [partsVisits]
    exact partsVisits_writable hc parts h hv
  | .hole e :: parts, _, _, h, hv => by
    rw [partsVisits, partsStatements, settled_append] at hv
    rw [partsVisits]
    exact (visits_writable hc e h hv.1).append
      (partsVisits_writable hc parts (h.keeps (checkExpr_keeps ρ.cx e)) hv.2)

/-- The variables that a statement declares have types that can be written. -/
theorem stmtVisits_writable (hc : ρ.cx.registry.Counted n) : ∀ (stmt : Stmt) {ret : Ty}
    {s : Checker} {Γ : List Local}, s.Within inClass Γ →
    Settled ρ inClass (stmt.visits ρ.cx Γ s) (stmt.statements ret) →
    AllWritable ρ.cx (stmt.visits ρ.cx Γ s) ∧ ∀ l ∈ stmt.locals ρ.cx s, l.ty.Writable
  | .letStmt name _ none value nameSpan _, _, s, Γ, h, hv => by
    rw [Stmt.visits, Stmt.statements, settled_stmt] at hv
    rw [Stmt.visits, Stmt.locals, List.forall_mem_singleton]
    have hw := visits_writable hc value h hv.1
    exact ⟨hw, hw _ (mem_visits_self _ Γ s value)⟩
  | .letStmt name _ (some ty) value nameSpan _, _, s, Γ, h, hv => by
    rw [Stmt.visits, Stmt.statements, settled_stmt] at hv
    rw [Stmt.visits, Stmt.locals, List.forall_mem_singleton]
    exact ⟨visits_writable hc value h hv.1, hv.2.2 ty rfl⟩
  | .returnStmt none _, _, _, _, _, _ => by
    rw [Stmt.visits]
    exact ⟨.nil, List.forall_mem_nil _⟩
  | .returnStmt (some value) _, _, _, _, h, hv => by
    rw [Stmt.visits, Stmt.statements, settled_stmt] at hv
    rw [Stmt.visits]
    exact ⟨visits_writable hc value h hv.1, List.forall_mem_nil _⟩
  | .ifStmt condition body none _, _, _, _, h, hv | .whileStmt condition body _, _, _, _, h, hv => by
    rw [Stmt.visits, Stmt.statements, settled_stmt, settled_append] at hv
    rw [Stmt.visits]
    have hb := blockVisits_writable hc body (h.keeps (checkCondition_keeps ρ.cx condition)) hv.1.2
    exact ⟨(visits_writable hc condition h hv.1.1).append hb, List.forall_mem_nil _⟩
  | .ifStmt condition body (some otherwise) _, _, s, _, h, hv => by
    rw [Stmt.visits, Stmt.statements, settled_stmt, settled_append, settled_append] at hv
    rw [Stmt.visits, Stmt.locals]
    obtain ⟨⟨⟨hvc, hvb⟩, hvo⟩, -⟩ := hv
    have hb := blockVisits_writable hc body (h.keeps (checkCondition_keeps ρ.cx condition)) hvb
    have ho := stmtVisits_writable hc otherwise
      (h.keeps (checkBranch_keeps ρ.cx condition body)) hvo
    exact ⟨((visits_writable hc condition h hvc).append hb).append ho.1, ho.2⟩
  | .forStmt name nameSpan iterable body _, _, s, Γ, h, hv => by
    rw [Stmt.visits, Stmt.statements, settled_stmt, settled_append] at hv
    rw [Stmt.visits]
    obtain ⟨⟨hvi, hvb⟩, hfits, -⟩ := hv
    have hi := visits_writable hc iterable h hvi
    have hiterable : (ρ.ty iterable).IsIterable := hfits
    rw [hvi.agrees] at hiterable
    have he : ((checkIterable ρ.cx iterable).result s).Writable :=
      elementTy_writable ((checkExpr ρ.cx iterable).after s) (iterable.typed _) hiterable
        (hi _ (mem_visits_self _ Γ s iterable))
    have hd := declare_steps name nameSpan ((checkIterable ρ.cx iterable).result s)
      ((checkIterable ρ.cx iterable).after s).push
    have hs := (h.keeps (checkIterable_keeps ρ.cx iterable)).push.steps hd
      (List.forall_mem_singleton.2 he)
    exact ⟨hi.append (blockVisits_writable hc body hs hvb), List.forall_mem_nil _⟩
  | .matchStmt scrutinee arms _, _, s, Γ, h, hv => by
    rw [Stmt.visits, Stmt.statements, settled_stmt, settled_append] at hv
    rw [Stmt.visits]
    obtain ⟨⟨hvs, hva⟩, hfits, -⟩ := hv
    have hs := visits_writable hc scrutinee h hvs
    have hoptional : ∀ arm ∈ arms, arm.pattern ≠ .wildcard → (ρ.ty scrutinee).IsOptional := hfits
    rw [hvs.agrees] at hoptional
    have ha := armsVisits_writable hc arms (h.keeps (checkExpr_keeps ρ.cx scrutinee)) hva
      (hs _ (mem_visits_self _ Γ s scrutinee)) hoptional
    exact ⟨hs.append ha, List.forall_mem_nil _⟩
  | .block body, _, _, _, h, hv => by
    rw [Stmt.visits, Stmt.statements, settled_stmt] at hv
    rw [Stmt.visits]
    exact ⟨blockVisits_writable hc body h hv.1, List.forall_mem_nil _⟩
  | .expr value, _, _, _, h, hv => by
    rw [Stmt.visits, Stmt.statements, settled_stmt] at hv
    rw [Stmt.visits]
    exact ⟨visits_writable hc value h hv.1, List.forall_mem_nil _⟩

theorem stmtsVisits_writable (hc : ρ.cx.registry.Counted n) : ∀ (stmts : List Stmt) {ret : Ty}
    {s : Checker} {Γ : List Local}, s.Within inClass Γ →
    Settled ρ inClass (stmtsVisits ρ.cx Γ s stmts) (stmtsStatements ret stmts) →
    AllWritable ρ.cx (stmtsVisits ρ.cx Γ s stmts)
  | [], _, _, _, _, _ => by
    rw [stmtsVisits]
    exact .nil
  | stmt :: stmts, _, s, _, h, hv => by
    rw [stmtsVisits, stmtsStatements, settled_append] at hv
    rw [stmtsVisits]
    obtain ⟨hw, hl⟩ := stmtVisits_writable hc stmt h hv.1
    exact hw.append (stmtsVisits_writable hc stmts (h.steps (checkStmt_steps ρ.cx stmt s) hl) hv.2)

theorem blockVisits_writable (hc : ρ.cx.registry.Counted n) : ∀ (body : Block) {ret : Ty}
    {s : Checker} {Γ : List Local}, s.Within inClass Γ →
    Settled ρ inClass (body.visits ρ.cx Γ s) (body.statements ret) →
    AllWritable ρ.cx (body.visits ρ.cx Γ s)
  | ⟨stmts, _⟩, _, _, _, h, hv => by
    rw [Block.visits, Block.statements] at hv
    rw [Block.visits]
    exact stmtsVisits_writable hc stmts h.push hv

theorem armsVisits_writable (hc : ρ.cx.registry.Counted n) : ∀ (arms : List Arm) {scrutinee : Ty}
    {ret : Ty} {s : Checker} {Γ : List Local}, s.Within inClass Γ →
    Settled ρ inClass (armsVisits ρ.cx scrutinee Γ s arms) (armsStatements ret arms) →
    scrutinee.Writable → (∀ arm ∈ arms, arm.pattern ≠ .wildcard → scrutinee.IsOptional) →
    AllWritable ρ.cx (armsVisits ρ.cx scrutinee Γ s arms)
  | [], _, _, _, _, _, _, _, _ => by
    rw [armsVisits]
    exact .nil
  | ⟨pattern, body, span⟩ :: arms, scrutinee, _, s, _, h, hv, hs, ho => by
    rw [armsVisits, armsStatements, settled_append] at hv
    rw [armsVisits]
    rw [List.forall_mem_cons] at ho
    have hl : ∀ l ∈ pattern.locals scrutinee, l.ty.Writable := by
      cases pattern with
      | some name nameSpan => exact List.forall_mem_singleton.2 (hs.present (ho.1 nofun))
      | none | wildcard => exact List.forall_mem_nil _
    have hb := blockVisits_writable hc body
      (h.push.steps (declarePattern_steps scrutinee pattern span s.push) hl) hv.1
    have hk := checkArms_keeps ρ.cx [⟨pattern, body, span⟩] scrutinee
    exact hb.append (armsVisits_writable hc arms (h.keeps hk) hv.2 hs ho.2)

end

theorem functionVisits_writable (hc : ρ.cx.registry.Counted n) (f : FunctionDecl) {s : Checker}
    (hf : f.Declared) (h : s.Within inClass [])
    (hv : Settled ρ inClass (f.visits ρ.cx s) f.statements) :
    AllWritable ρ.cx (f.visits ρ.cx s) := by
  have ha := (h.returning f.ret).keeps (checkAnnotation_keeps ρ.cx f.ret f.nameSpan)
  have hi := ha.push.steps (declareParams_steps ρ.cx f.params _) (paramLocals_writable hf.1)
  rw [List.append_nil] at hi
  exact blockVisits_writable hc f.body hi hv

theorem fieldVisits_writable (hc : ρ.cx.registry.Counted n) (f : FieldDecl) {s : Checker}
    (h : s.Within inClass [])
    (hv : Settled ρ inClass (f.visits ρ.cx s) (exprsStatements f.initial.toList)) :
    AllWritable ρ.cx (f.visits ρ.cx s) := by
  unfold FieldDecl.visits at hv ⊢
  cases hf : f.initial with
  | none => exact .nil
  | some value =>
    rw [hf, Option.toList_some, exprsStatements, exprsStatements, List.append_nil] at hv
    exact visits_writable hc value (h.keeps (checkAnnotation_keeps ρ.cx f.ty f.span)) hv

/-- A check that goes through a list, where each element is checked with no variable in sight. -/
theorem visitAll_writable {β : Type} {check : β → Check Unit} {visits : Checker → β → List Visit}
    {stmts : β → List (Ty × Stmt)} {ns : β → List Node} {P : β → Prop} {outside : Bool}
    (hk : ∀ x, Keeps (check x) (ns x))
    (hw : ∀ x {s : Checker}, P x → s.Within outside [] →
      Settled ρ inClass (visits s x) (stmts x) → AllWritable ρ.cx (visits s x)) :
    ∀ (xs : List β) {s : Checker}, (∀ x ∈ xs, P x) → s.Within outside [] →
      Settled ρ inClass (visitAll check visits s xs) (xs.flatMap stmts) →
      AllWritable ρ.cx (visitAll check visits s xs)
  | [], _, _, _, _ => .nil
  | x :: xs, _, hp, h, hv => by
    rw [visitAll, List.flatMap_cons, settled_append] at hv
    rw [List.forall_mem_cons] at hp
    exact (hw x hp.1 h hv.1).append (visitAll_writable hk hw xs hp.2 (h.keeps (hk x)) hv.2)

theorem classVisits_writable (hc : ρ.cx.registry.Counted n) (c : ClassDecl) {s : Checker}
    (hd : c.Declared) (hv : Settled ρ true (c.visits ρ.cx s) c.statements) :
    AllWritable ρ.cx (c.visits ρ.cx s) := by
  have h : Checker.Within true { s with enclosing := some c.name } [] :=
    ⟨fun _ => rfl, List.forall_mem_nil _⟩
  have hs : exprsStatements c.initials =
      c.fields.flatMap fun f => exprsStatements f.initial.toList :=
    (flatMap_initials rfl (by simp [exprsStatements]) c.fields).symm
  rw [ClassDecl.statements, hs] at hv
  obtain ⟨hvf, hvm⟩ := settled_append.1 hv
  have hf := visitAll_writable (checkField_keeps ρ.cx) (P := fun _ => True)
    (fun f _ _ => fieldVisits_writable hc f) c.fields (fun _ _ => trivial) h hvf
  have hk := Keeps.forM (checkField_keeps ρ.cx) c.fields
  have hm := visitAll_writable (checkFunction_keeps ρ.cx)
    (fun f _ => functionVisits_writable hc f) c.methods hd.methods (h.keeps hk) hvm
  exact hf.append hm

end

/-! ### The visits of a module -/

/-- What names neither a module nor anything built in is a value, and so is what has it inside. -/
theorem Names.isValue {names : Names} : ∀ {e : Expr},
    (∀ node name, .ident node name ∈ e.within →
      ∃ b, names.binding? node.id = some b ∧ b.isTyped = true) →
    names.intrinsic? e = none ∧ names.aliased? e = none ∧ names.isBuiltin e = false
  | .ident node name, h => by
    obtain ⟨b, hb, ht⟩ := h node name (mem_within_self _)
    cases b <;> simp_all [intrinsic?, aliased?, isBuiltin, Binding.isTyped]
  | .member node object name nameSpan, h => by
    have hsub : object.within ⊆ (Expr.member node object name nameSpan).within := by
      rw [Expr.within]
      exact List.subset_append_left _ _
    exact ⟨rfl, rfl, (isValue fun node name hi => h node name (hsub hi)).2.2⟩
  | .int _ _, _ | .float _ _, _ | .string _ _, _ | .bool _ _, _ | .interpolated _ _, _
  | .noneLit _, _ | .someOf _ _, _ | .this _, _ | .binary _ _ _ _, _ | .unary _ _ _, _
  | .assign _ _ _, _ | .call _ _ _, _ | .index _ _ _, _ | .new _ _ _ _, _ | .array _ _, _
  | .lambda _ _ _ _, _ => ⟨rfl, rfl, rfl⟩

/-- A module without any fault, in which nothing leaves a type open by itself: neither `None` nor an
array without elements, and no name of a module or of anything built in. -/
structure Registry.Plain (r : Registry) (path : String) (m : Module) : Prop where
  found : r.find? path = some m
  imports : m.importFailed = false
  names : (r.names path).errors = #[]
  types : (r.check (r.names path)).errors = []
  closed : ∀ e ∈ m.exprs, e.isOpen = false
  typed : ∀ ref ∈ (r.names path).references, ref.binding.isTyped = true

namespace Registry.Plain

variable {r : Registry} {path : String} {m : Module} {n : Nat}

theorem numbered (h : r.Plain path m) (hc : r.Counted n) : m.Numbered :=
  (hc path m h.found).bodies.nodup

/-- Every identifier is bound, and what it is bound to may have a type. -/
theorem lookup (h : r.Plain path m) {σ : Site} (hσ : σ ∈ r.sites m) {node : Node} {name : String}
    (he : σ.expr = .ident node name) :
    ∃ b, σ.env.lookup name = some b ∧ σ.reference? = some ⟨name, node.id, node.span, b⟩ ∧
      b.isTyped = true := by
  have hfault {d : Diagnostic} (hd : σ.fault? ⟨r, m⟩ = some d) : False := by
    have hmem : d ∈ (r.names path).errors.toList := by
      rw [errors_eq_sites h.found]
      exact List.mem_filterMap.2 ⟨σ, hσ, hd⟩
    simp [h.names] at hmem
  cases σ.settled r m he with
  | bound b found refers _ =>
    have hmem : (⟨name, node.id, node.span, b⟩ : Reference) ∈ (r.names path).references.toList := by
      rw [references_eq_sites h.found]
      exact List.mem_filterMap.2 ⟨σ, hσ, refers⟩
    exact ⟨b, found, refers, h.typed _ (Array.mem_toList_iff.1 hmem)⟩
  | hidden _ _ _ _ faulty => exact (hfault faulty).elim
  | undefined _ _ _ _ faulty => exact (hfault faulty).elim
  | excused _ _ failed _ _ _ => simp [h.imports] at failed

theorem binding (h : r.Plain path m) (hc : r.Counted n) {node : Node} {name : String}
    (he : .ident node name ∈ m.exprs) :
    ∃ b, (r.names path).binding? node.id = some b ∧ b.isTyped = true := by
  obtain ⟨σ, hσ, hs⟩ := List.mem_map.1 ((sites_perm_exprs r m).mem_iff.2 he)
  obtain ⟨b, -, hr, ht⟩ := h.lookup hσ hs
  have hb := binding?_of_mem_sites h.found (h.numbered hc) hσ
  rw [hr, hs] at hb
  exact ⟨b, hb, ht⟩

/-- No expression names a module or anything built in. -/
theorem isValue (h : r.Plain path m) (hc : r.Counted n) {e : Expr} (he : e ∈ m.exprs) :
    (r.names path).intrinsic? e = none ∧ (r.names path).aliased? e = none ∧
      (r.names path).isBuiltin e = false :=
  Names.isValue fun _ _ hi => h.binding hc (exprs_nested m e he hi)

theorem takesValue (h : r.Plain path m) (hc : r.Counted n) {e : Expr} (he : e ∈ m.exprs) :
    e.TakesValue (r.names path) := by
  cases e with
  | call node callee args =>
    have hcallee : callee ∈ (Expr.call node callee args).within := by
      rw [Expr.within]
      exact List.mem_append_left _ (List.mem_append_left _ (mem_within_self callee))
    exact (h.isValue hc (exprs_nested m _ he hcallee)).1
  | member node object name nameSpan =>
    have hobject : object ∈ (Expr.member node object name nameSpan).within := by
      rw [Expr.within]
      exact List.mem_append_left _ (mem_within_self object)
    have hv := (h.isValue hc (exprs_nested m _ he hobject)).2
    exact ⟨hv.2, hv.1⟩
  | _ => trivial

/-- An identifier that is visited has the type of a variable in sight, or one that can be
written. -/
theorem ident (h : r.Plain path m) (hc : r.Counted n) {σ : Site} (hσ : σ ∈ r.sites m) {v : Visit}
    {done : Checker} (hv : Meets (r.checkContext path m) done σ v) {node : Node}
    {name : String} (he : v.expr = .ident node name) :
    (∃ l ∈ v.locals, v.ty (r.checkContext path m) = l.ty) ∨
      (v.ty (r.checkContext path m)).Writable := by
  obtain ⟨b, hl, hr, ht⟩ := h.lookup hσ (hv.expr.trans he)
  have hb : (r.checkContext path m).names.binding? node.id = some b := by
    have hb := binding?_of_mem_sites h.found (h.numbered hc) hσ
    rwa [hr, hv.expr, he] at hb
  have hty : v.ty (r.checkContext path m) =
      ((r.checkContext path m).identTy node.id name).result v.state := by
    rw [Visit.ty, he]
    rfl
  rcases declaredTy?_of_lookup hc h.found hσ hl ht with ⟨x, span, rfl⟩ | ⟨ty, hd, hw⟩
  · obtain ⟨ty, hfind, -, hlocal⟩ := hv.stands.lookup hl
    refine .inl ⟨_, List.mem_of_find?_eq_some hfind, ?_⟩
    rw [hty]
    simp only [CheckContext.identTy, hb]
    show (v.state.locals.lookup name).getD .unknown = ty
    rw [hlocal, Option.getD_some]
  · rw [hty, result_identTy hb hd]
    exact .inr hw

/-- The visits of a plain module are settled, but for the places where `this` stands. -/
theorem visit_settled (h : r.Plain path m) (hc : r.Counted n) {v : Visit}
    (hv : v ∈ (r.checkContext path m).visits) {inClass : Bool}
    (ht : v.expr.isThis = true → inClass = true) :
    v.Settled ⟨r.checkContext path m, r.check (r.names path)⟩ inClass := by
  obtain ⟨σ, hσ, hmeets⟩ := (sites_follow_visits r path m).exists_site hv
  have he : v.expr ∈ m.exprs := by
    rw [← hmeets.expr]
    exact (sites_perm_exprs r m).mem_iff.1 (List.mem_map_of_mem hσ)
  have hobeys := obeys_of_silent h.found (h.numbered hc) h.imports h.types
  refine ⟨?_, hobeys.exprs _ he, (hc path m h.found).bodies.exprs _ he, h.closed _ he,
    h.takesValue hc he, ht, fun _ _ hi => h.ident hc hσ hmeets hi⟩
  have hty := typeOf?_of_mem h.found (h.numbered hc) hmeets.recorded
  show ((r.check (r.names path)).typeOf? v.expr.id).getD .unknown = _
  rw [Expr.id, hty, Option.getD_some]
  rfl

/-- The visits of the functions of a module are in their bodies. -/
theorem mem_within_of_functionVisits {v : Visit}
    (hv : v ∈ visitAll (checkFunction (r.checkContext path m))
      (FunctionDecl.visits (r.checkContext path m))
      ((m.decls.classes.forM (checkClass (r.checkContext path m))).after (Checker.push {}))
      m.decls.functions) :
    ∃ f ∈ m.decls.functions, v.expr ∈ f.body.within := by
  let cx := r.checkContext path m
  have h : Stands (Checker.push {}) [] (r.rootEnv m) :=
    ⟨by simp [Checker.push, ScopeStack.push], rfl, r.rootEnv m, rootEnv_global r m, rfl⟩
  have hk := Keeps.forM (checkClass_keeps cx) m.decls.classes
  have hf := visitAll_traced cx (checkFunction_keeps cx) (fun f _ => checkFunction_traced cx f)
    m.decls.functions 0 (h.keeps hk)
  obtain ⟨σ, hσ, hmeets⟩ := hf.follows.exists_site hv
  rw [flatMap_zipIdx_fst (FunctionDecl.sites (r.rootEnv m))] at hσ
  obtain ⟨f, hf, hσ⟩ := List.mem_flatMap.1 hσ
  refine ⟨f, hf, ?_⟩
  rw [← hmeets.expr]
  exact (blockSites_perm f.body _).mem_iff.1 (List.mem_map_of_mem hσ)

/-- Where `this` stands in classes only, all visits find types that can be written. -/
theorem allWritable (h : r.Plain path m) (hc : r.Counted n)
    (hthis : ∀ f ∈ m.decls.functions, ∀ e ∈ f.body.within, e.isThis = false) :
    AllWritable (r.checkContext path m) (r.checkContext path m).visits := by
  let ρ : Typing := ⟨r.checkContext path m, r.check (r.names path)⟩
  have hmade := hc path m h.found
  have hstmts : ∀ s ∈ m.statements, s.2.Fits ρ s.1 ∧ s.2.Declared := by
    have hobeys := obeys_of_silent h.found (h.numbered hc) h.imports h.types
    exact fun s hs => ⟨hobeys.statements s hs, hmade.bodies.stmts s hs⟩
  have hout : Checker.Within false (Checker.push {}) [] := ⟨nofun, List.forall_mem_nil _⟩
  unfold Module.statements at hstmts
  rw [List.forall_mem_append] at hstmts
  refine .append ?_ ?_
  · refine visitAll_writable (ρ := ρ) (checkClass_keeps ρ.cx)
      (fun c _ hd _ => classVisits_writable hc c hd) m.decls.classes hmade.classes hout
      ⟨fun v hv => ?_, hstmts.1⟩
    exact h.visit_settled hc (List.mem_append_left _ hv) fun _ => rfl
  · have hk := Keeps.forM (checkClass_keeps ρ.cx) m.decls.classes
    refine visitAll_writable (ρ := ρ) (checkFunction_keeps ρ.cx)
      (fun f _ => functionVisits_writable hc f) m.decls.functions hmade.functions (hout.keeps hk)
      ⟨fun v hv => ?_, hstmts.2⟩
    obtain ⟨f, hf, he⟩ := mem_within_of_functionVisits hv
    refine h.visit_settled hc (List.mem_append_right _ hv) fun ht => ?_
    exact absurd ht (by simp [hthis f hf _ he])

/-- Whatever has a type in the table has been visited. -/
theorem exists_visit (h : r.Plain path m) (hc : r.Counted n) {t : TypedNode}
    (ht : t ∈ (r.check (r.names path)).nodes) :
    ∃ v ∈ (r.checkContext path m).visits, v.ty (r.checkContext path m) = t.ty := by
  have hn := h.numbered hc
  rw [check_eq h.found] at ht
  obtain ⟨ts, hts, hsub⟩ := (checkModule_keeps (r.checkContext path m) {}).types
  have htable : ((checkModule (r.checkContext path m)).after {}).types.toList = ts := hts
  have hnode : t.node ∈ nodes m.exprs := hsub.subset (List.mem_map_of_mem (htable ▸ ht))
  obtain ⟨e, he, hen⟩ := List.mem_map.1 hnode
  obtain ⟨hi, ha, hb⟩ := h.isValue hc he
  obtain ⟨v, hv, rfl, hty⟩ := exists_visit_of_mem h.found hn he hi ha hb
  refine ⟨v, hv, ?_⟩
  have htype := typeOf?_of_mem h.found hn ht
  rw [← hen] at htype
  exact Option.some.inj (hty.symm.trans htype)

end Registry.Plain

/-- **No unknown types.** Take a report without faults on a module that has neither `None` nor an
array without elements, whose names are bound to no module and to nothing built in, and in whose
functions no `this` stands. Then every type in the table of types can be written: nothing in it is
unknown, at any depth. -/
theorem types_writable {c : Compilation} (hc : c.Reachable) {rep : ModuleReport}
    (hrep : rep ∈ c.check.1.modules) (hclean : rep.diagnostics = []) {m : Module}
    (hm : c.check.2.registry.find? rep.module = some m) (hclosed : ∀ e ∈ m.exprs, e.isOpen = false)
    (htyped : ∀ ref ∈ rep.names.references, ref.binding.isTyped = true)
    (hthis : ∀ f ∈ m.decls.functions, ∀ e ∈ f.body.within, e.isThis = false) :
    ∀ t ∈ rep.types.nodes, t.ty.Writable := by
  obtain ⟨m', hm', hi, hnames, he, htypes, hs⟩ :=
    Compilation.exists_module_of_clean hc.sound hrep hclean
  obtain rfl : m' = m := Option.some.inj (hm'.symm.trans hm)
  rw [htypes, hnames] at hs ⊢
  rw [hnames] at he htyped
  have hplain : c.check.2.registry.Plain rep.module m' := ⟨hm, hi, he, hs, hclosed, htyped⟩
  have hcounted := hc.check.sound.counted
  intro t ht
  obtain ⟨v, hv, hty⟩ := hplain.exists_visit hcounted ht
  rw [← hty]
  exact hplain.allWritable hcounted hthis v hv

/-! ### A `this` inside and outside of a class -/

/-- A class with a method that uses `this`, and a function that calls the method. -/
def methodThis : Compilation :=
  ({} : Compilation).add "main.mg"
    "class P \x7b n: int; fn get() -> int \x7b return this.n; \x7d \x7d
     fn f(p: P) \x7b let y = [p.get()]; \x7d" (.root "app")

theorem methodThis_run :
    methodThis.check.1.diagnostics = [] ∧
      "main" ∈ methodThis.check.2.reportedPaths ∧
      (methodThis.check.2.registry.find? "main").any (fun m =>
        m.exprs.all (!·.isOpen) && m.exprs.any (·.isThis) &&
          m.decls.functions.all fun f => f.body.within.all (!·.isThis)) ∧
      (methodThis.check.2.registry.names "main").references.toList.all (·.binding.isTyped) ∧
      (methodThis.check.2.registry.check
        (methodThis.check.2.registry.names "main")).nodes.length = 6 := by
  decide +kernel

/-- Six expressions get types, one of them a `this` in the method. -/
theorem types_writable_methodThis :
    ∃ rep ∈ methodThis.check.1.modules, rep.diagnostics = [] ∧
      ∃ m, methodThis.check.2.registry.find? rep.module = some m ∧
        (∀ e ∈ m.exprs, e.isOpen = false) ∧ (∃ e ∈ m.exprs, e.isThis = true) ∧
        rep.types.nodes.length = 6 ∧ ∀ t ∈ rep.types.nodes, t.ty.Writable := by
  obtain ⟨hclean, hpath, hany, hrefs, hlen⟩ := methodThis_run
  let rep := methodThis.check.2.moduleReport "main"
  obtain ⟨hrep, hdiagnostics⟩ := Compilation.moduleReport_of_clean hclean hpath
  obtain ⟨m, hm, hall⟩ := (Option.any_eq_true _ _).1 hany
  simp only [Bool.and_eq_true, List.all_eq_true, List.any_eq_true, Bool.not_eq_true'] at hall
  obtain ⟨⟨hclosed, hsome⟩, hthis⟩ := hall
  have htyped : ∀ ref ∈ rep.names.references, ref.binding.isTyped = true := fun ref href =>
    List.all_eq_true.1 hrefs ref (Array.mem_toList_iff.2 href)
  have hreachable : methodThis.Reachable := Compilation.Reachable.initial.add _ _ _
  have h := types_writable hreachable hrep hdiagnostics hm hclosed htyped hthis
  exact ⟨rep, hrep, hdiagnostics, m, hm, hclosed, hsome, hlen, h⟩

/-- A function uses `this`. -/
def bareThis : Compilation :=
  ({} : Compilation).add "main.mg" "fn f() \x7b this; \x7d" (.root "app")

theorem bareThis_run :
    bareThis.check.1.diagnostics = [] ∧
      "main" ∈ bareThis.check.2.reportedPaths ∧
      (bareThis.check.2.registry.find? "main").any (·.exprs.all (!·.isOpen)) ∧
      (bareThis.check.2.registry.names "main").references = #[] ∧
      (bareThis.check.2.registry.check (bareThis.check.2.registry.names "main")).nodes =
        [⟨⟨0, ⟨"main.mg", 9, 13⟩⟩, .unknown⟩] := by
  decide +kernel

/-- The `this` of a function has an unknown type, and no fault is reported. -/
theorem this_unknown :
    bareThis.Reachable ∧
      ∃ rep ∈ bareThis.check.1.modules, rep.diagnostics = [] ∧
        ∃ m, bareThis.check.2.registry.find? rep.module = some m ∧
          (∀ e ∈ m.exprs, e.isOpen = false) ∧
          (∀ ref ∈ rep.names.references, ref.binding.isTyped = true) ∧
          ∃ t ∈ rep.types.nodes, ¬ t.ty.Writable := by
  obtain ⟨hclean, hpath, hany, hrefs, hnodes⟩ := bareThis_run
  let rep := bareThis.check.2.moduleReport "main"
  obtain ⟨hrep, hdiagnostics⟩ := Compilation.moduleReport_of_clean hclean hpath
  obtain ⟨m, hm, hall⟩ := (Option.any_eq_true _ _).1 hany
  have hclosed : ∀ e ∈ m.exprs, e.isOpen = false := by simpa using hall
  refine ⟨Compilation.Reachable.initial.add _ _ _, rep, hrep, hdiagnostics, m, hm, hclosed, ?_, ?_⟩
  · intro ref href
    have hempty : rep.names.references = #[] := hrefs
    simp [hempty] at href
  · have hmem : (⟨⟨0, ⟨"main.mg", 9, 13⟩⟩, .unknown⟩ : TypedNode) ∈ rep.types.nodes := by
      rw [show rep.types.nodes = _ from hnodes]
      exact List.mem_singleton_self _
    exact ⟨_, hmem, id⟩

end MgLang
