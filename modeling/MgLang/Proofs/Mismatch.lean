import MgLang.Proofs.Declared
import MgLang.Proofs.Identifiers
import MgLang.Proofs.Joins
import MgLang.Proofs.ShownAlike
/-!
# What a mismatch shows

A mismatch of types shows the type that is expected and the type that is there. These always differ,
and so do their texts, with two exceptions (`mismatch_tells`): brackets behind the text of a
function can be meant for the function or for what it returns, and where a function is expected, the
text says `function`, which is also the text of a class of that name.

A check finds only types whose classes have names that can be written, and where it reports two
types they differ. One lemma for each step of a check leads there (`Check.Knows`).
-/

namespace MgLang

open Check

/-! ### Mismatches -/

/-- The text shows two different types, and in one of them is an array of functions. -/
def Ambiguous (text : String) : Prop :=
  ∃ t u : Ty, t.Named ∧ u.Named ∧ t ≠ u ∧ t.text = text ∧ u.text = text ∧
    (t.hasFunctionArray = true ∨ u.hasFunctionArray = true)

/-- A mismatch shows two texts, or one that has two meanings. -/
def Cause.Tells (cause : Cause) : Prop :=
  ∀ text, cause = .typeMismatch text text → text = "function" ∨ Ambiguous text

theorem Cause.tells_typeMismatch {expected received : Ty} (he : expected.Named)
    (hr : received.Named) (hne : expected ≠ received) :
    (Cause.typeMismatch expected.text received.text).Tells := by
  intro text h
  obtain ⟨hexpected, hreceived⟩ := Cause.typeMismatch.inj h
  have htext := hexpected.trans hreceived.symm
  exact .inr ⟨expected, received, he, hr, hne, hexpected, hreceived,
    Ty.hasFunctionArray_of_text_eq he hr hne htext⟩

/-- What is called is expected to be a function, whatever its type is. -/
theorem Cause.tells_function (received : String) :
    (Cause.typeMismatch "function" received).Tells :=
  fun _ h => .inl (Cause.typeMismatch.inj h).1.symm

/-! ### Steps of a check -/

/-- The check knows only types with names that can be written, and the mismatches it has reported
tell two types apart. -/
structure Checker.Named (s : Checker) : Prop where
  locals : ∀ frame ∈ s.locals.frames, ∀ slot ∈ frame, slot.2.Named
  expected : ∀ ty ∈ s.expected, ty.Named
  enclosing : ∀ name ∈ s.enclosing, IsName name
  errors : ∀ d ∈ s.errors, d.cause.Tells

theorem Checker.named_empty : Checker.Named {} where
  locals := List.forall_mem_nil _
  expected := by rintro _ ⟨⟩
  enclosing := by rintro _ ⟨⟩
  errors d hd := absurd hd (Array.not_mem_empty d)

/-- The types of the variables that can be seen name classes that can be written. -/
theorem Checker.Named.lookup {s : Checker} (h : s.Named) {name : String} {ty : Ty}
    (hl : s.locals.lookup name = some ty) : ty.Named := by
  obtain ⟨frame, hframe, hl⟩ := List.exists_of_findSome?_eq_some hl
  obtain ⟨before, behind, rfl, -⟩ := List.lookup_eq_some_iff.1 hl
  exact h.locals _ hframe (name, ty) (by simp)

namespace Check

variable {α β : Type} {P : α → Prop} {Q : β → Prop}

/-- The step finds what satisfies `P`. The check knows only types with names that can be written
after it as before, and the mismatches tell two types apart. -/
def Knows (x : Check α) (P : α → Prop) : Prop :=
  ∀ s : Checker, s.Named → (x.after s).Named ∧ P (x.result s)

namespace Knows

variable {x : Check α} {f : α → Check β}

theorem pure {a : α} (h : P a) : Knows (Pure.pure a) P :=
  fun _ hs => ⟨hs, h⟩

theorem bind (hx : Knows x P) (hf : ∀ a, P a → Knows (f a) Q) : Knows (x >>= f) Q := by
  intro s hs
  obtain ⟨hafter, hresult⟩ := hx s hs
  exact hf _ hresult _ hafter

/-- What is found does not matter. -/
theorem behind (hx : Knows x P) (hf : ∀ a, Knows (f a) Q) : Knows (x >>= f) Q :=
  hx.bind fun a _ => hf a

/-- A step that depends on the state. -/
theorem get {f : Checker → Check β} (hf : ∀ s : Checker, s.Named → Knows (f s) Q) :
    Knows (MonadState.get >>= f) Q :=
  fun s hs => hf s hs s hs

theorem ite {p : Prop} [Decidable p] {y : Check α} (hx : Knows x P) (hy : Knows y P) :
    Knows (if p then x else y) P := by
  by_cases h : p
  · rwa [if_pos h]
  · rwa [if_neg h]

theorem report {cause : Cause} (h : cause.Tells) (span : Span) :
    Knows (Check.report cause span) fun _ => True := by
  refine fun s hs => ⟨⟨hs.locals, hs.expected, hs.enclosing, fun d hd => ?_⟩, trivial⟩
  rcases Array.mem_push.1 hd with hd | rfl
  · exact hs.errors d hd
  · exact h

/-- A fault is met, and something is found all the same. -/
theorem reportThen {cause : Cause} (h : cause.Tells) (span : Span) {a : α} (ha : P a) :
    Knows (do Check.report cause span; Pure.pure a) P :=
  (report h span).behind fun _ => .pure ha

/-- Something is found in either case, and unless a condition holds a fault is met. -/
theorem reportUnless {p : Prop} [Decidable p] {cause : Cause} (h : cause.Tells) (span : Span)
    {a : α} (ha : P a) :
    Knows (if p then Pure.pure a else do Check.report cause span; Pure.pure a) P :=
  .ite (.pure ha) (.reportThen h span ha)

theorem mismatch {expected received : Ty} (he : expected.Named) (hr : received.Named)
    (hne : expected ≠ received) (span : Span) :
    Knows (Check.mismatch expected received span) fun _ => True :=
  .report (Cause.tells_typeMismatch he hr hne) span

theorem expectAssignable {received expected : Ty} (hr : received.Named) (he : expected.Named)
    (span : Span) : Knows (Check.expectAssignable received expected span) fun _ => True := by
  unfold Check.expectAssignable
  split
  · exact .pure trivial
  · next h =>
    refine .mismatch he hr (fun heq => h ?_) span
    rw [heq]
    exact Ty.flows_self true received

theorem record (node : Node) (ty : Ty) : Knows (Check.record node ty) fun _ => True :=
  fun _ hs => ⟨⟨hs.locals, hs.expected, hs.enclosing, hs.errors⟩, trivial⟩

theorem declare (name : String) {ty : Ty} (h : ty.Named) :
    Knows (Check.declare name ty) fun _ => True := by
  refine fun s hs => ⟨⟨?_, hs.expected, hs.enclosing, hs.errors⟩, trivial⟩
  rw [after_declare]
  unfold ScopeStack.declare
  have hlocals := hs.locals
  split
  · exact hlocals
  · next frame outer hframes =>
    rw [hframes] at hlocals
    obtain ⟨hframe, houter⟩ := List.forall_mem_cons.1 hlocals
    exact List.forall_mem_cons.2 ⟨List.forall_mem_cons.2 ⟨h, hframe⟩, houter⟩

theorem discard (h : Knows x P) : Knows (discard x) fun _ => True :=
  fun s hs => ⟨(h s hs).1, trivial⟩

/-- Behind a step, the type of an expression is recorded. -/
theorem recorded {x : Check Ty} (h : Knows x Ty.Named) (node : Node) :
    Knows (x >>= fun ty => Check.record node ty >>= fun _ => Pure.pure ty) Ty.Named :=
  h.bind fun ty ht => (record node ty).behind fun _ => .pure ht

theorem inScope (h : Knows x P) : Knows (Check.inScope x) P := by
  intro s hs
  have hpush : (Checker.push s).Named :=
    ⟨List.forall_mem_cons.2 ⟨List.forall_mem_nil _, hs.locals⟩, hs.expected, hs.enclosing,
      hs.errors⟩
  obtain ⟨hafter, hresult⟩ := h s.push hpush
  refine ⟨⟨fun frame hm => ?_, hafter.expected, hafter.enclosing, hafter.errors⟩, hresult⟩
  exact hafter.locals frame (List.mem_of_mem_tail hm)

theorem returning (h : Knows x P) {ty : Ty} (ht : ty.Named) : Knows (Check.returning ty x) P := by
  intro s hs
  have hinner : Checker.Named { s with expected := some ty } :=
    ⟨hs.locals, fun _ he => Option.some.inj he ▸ ht, hs.enclosing, hs.errors⟩
  obtain ⟨hafter, hresult⟩ := h _ hinner
  exact ⟨⟨hafter.locals, hs.expected, hafter.enclosing, hafter.errors⟩, hresult⟩

theorem inClass (h : Knows x P) {name : String} (hn : IsName name) :
    Knows (Check.inClass name x) P := by
  intro s hs
  have hinner : Checker.Named { s with enclosing := some name } :=
    ⟨hs.locals, hs.expected, fun _ he => Option.some.inj he ▸ hn, hs.errors⟩
  obtain ⟨hafter, hresult⟩ := h _ hinner
  exact ⟨⟨hafter.locals, hafter.expected, hs.enclosing, hafter.errors⟩, hresult⟩

theorem forM {f : α → Check PUnit} : ∀ {as : List α}, (∀ a ∈ as, Knows (f a) fun _ => True) →
    Knows (as.forM f) fun _ => True
  | [], _ => .pure trivial
  | _ :: _, h =>
    (h _ List.mem_cons_self).behind fun _ => forM fun a ha => h a (List.mem_cons_of_mem _ ha)

end Knows

end Check

/-! ### The types of declarations -/

theorem Annotated.tys {params : List Param} (h : Annotated (paramAnnotations params)) :
    TysNamed (params.map (·.ty)) := by
  induction params with
  | nil => exact List.forall_mem_nil _
  | cons p params ih =>
    obtain ⟨hp, hparams⟩ := List.forall_mem_cons.1 h
    exact tysNamed_cons.2 ⟨hp, ih hparams⟩

theorem FunctionDecl.signature_named {f : FunctionDecl} (h : Annotated f.annotations) :
    f.signature.Named := by
  obtain ⟨hret, h⟩ := List.forall_mem_cons.1 h
  exact Ty.named_fn.2 ⟨(annotated_append.1 h).1.tys, hret⟩

theorem ClassDecl.Named.member {c : ClassDecl} (h : c.Named) {name : String} {m : Member}
    (hm : c.member? name = some m) : m.ty.Named := by
  obtain ⟨hfields, hmethods⟩ := annotated_append.1 h.annotations
  unfold ClassDecl.member? at hm
  split at hm
  · next f hf =>
    cases hm
    have hf := annotated_flatMap.1 hfields f (List.mem_of_find?_eq_some hf)
    exact (List.forall_mem_cons.1 hf).1
  · obtain ⟨f, hf, rfl⟩ := Option.map_eq_some_iff.1 hm
    exact FunctionDecl.signature_named
      (annotated_flatMap.1 hmethods f (List.mem_of_find?_eq_some hf))

section

variable {r : Registry} (hr : r.Named) {path : String}
include hr

theorem Registry.Named.functionAt? {idx : Nat} {f : FunctionDecl}
    (h : r.functionAt? path idx = some f) : f.signature.Named := by
  obtain ⟨m, hm, hget⟩ := functionAt?_eq_some.1 h
  exact f.signature_named ((hr path m hm).functions f (List.mem_of_getElem? hget))

theorem Registry.Named.classAt? {idx : Nat} {c : ClassDecl}
    (h : r.classAt? path idx = some c) : c.Named := by
  obtain ⟨m, hm, hget⟩ := classAt?_eq_some.1 h
  exact (hr path m hm).classes c (List.mem_of_getElem? hget)

theorem Registry.Named.memberAt? {idx : Nat} {name : String} {m : Member}
    (h : r.memberAt? path idx name = some m) : m.ty.Named := by
  obtain ⟨c, hc, hm⟩ := memberAt?_eq_some.1 h
  exact (hr.classAt? hc).member hm

/-- A class that is found has the name that it was looked for by. -/
theorem Registry.Named.classDecl? {name origin : String} {owner : Module} {decl : ClassDecl}
    (h : r.classDecl? name origin = some (owner, decl)) : decl.Named ∧ decl.name = name := by
  unfold Registry.classDecl? at h
  obtain ⟨⟨m, idx⟩, hfind, h⟩ := Option.bind_eq_some_iff.1 h
  obtain ⟨decl', hget, h⟩ := Option.bind_eq_some_iff.1 h
  cases h
  obtain ⟨path, -, hin⟩ := List.exists_of_findSome?_eq_some hfind
  obtain ⟨m', hm, hin⟩ := Option.bind_eq_some_iff.1 hin
  obtain ⟨idx', hidx, hin⟩ := Option.bind_eq_some_iff.1 hin
  cases hin
  refine ⟨(hr path _ hm).classes decl (List.mem_of_getElem? hget), ?_⟩
  obtain ⟨hlt, hname, -⟩ := List.findIdx?_eq_some_iff_getElem.1 hidx
  rw [List.getElem?_eq_getElem hlt] at hget
  cases hget
  exact beq_iff_eq.1 hname

end

/-- The members of built-in types are made of what these hold. -/
theorem Ty.Named.builtinMember {ty member : Ty} {name : String} (h : ty.Named)
    (hm : ty.builtinMember? name = some member) : member.Named := by
  cases ty with
  | array inner | option inner =>
    have hi : inner.Named := h
    simp only [builtinMember?] at hm
    split at hm <;> cases hm <;> grind [Ty.Named, classNames, classNamesAll]
  | string =>
    simp only [builtinMember?] at hm
    split at hm <;> cases hm <;> exact List.forall_mem_nil _
  | _ => cases hm

theorem Ty.Named.common {a b c : Ty} (ha : a.Named) (hb : b.Named) (h : a.common? b = some c) :
    c.Named := by
  fun_induction common? a b generalizing c with
  | case1 b => exact Option.some.inj h ▸ hb
  | case2 a => exact Option.some.inj h ▸ ha
  | case3 | case4 => exact Option.some.inj h ▸ ha
  | case5 a b ih | case6 a b ih =>
    obtain ⟨c', hc, rfl⟩ := Option.map_eq_some_iff.1 h
    have hi : c'.Named := ih ha hb hc
    exact hi
  | case7 a => exact Option.some.inj h ▸ ha
  | case8 => cases h

/-! ### The check of a piece -/

theorem binaryTy_knows (op : BinaryOp) {left right : TypedNode} (hl : left.ty.Named)
    (hr : right.ty.Named) (span : Span) : Knows (binaryTy op left right span) Ty.Named := by
  unfold binaryTy
  split
  · have hbool : Ty.bool.Named := .of_no_names rfl
    refine (Knows.expectAssignable hl hbool _).behind fun _ => ?_
    exact (Knows.expectAssignable hr hbool _).behind fun _ => .pure hbool
  · split
    · next hnone =>
      have hne : left.ty ≠ right.ty := by
        intro he
        rw [he, Ty.common?_self] at hnone
        cases hnone
      refine (Knows.mismatch hl hr hne span).behind fun _ => ?_
      split <;> exact .pure (.of_no_names rfl)
    · next common hcommon =>
      have hc := hl.common hr hcommon
      refine .ite (.pure (.of_no_names rfl)) ?_
      split
      · exact .pure hc
      · next hnumeric =>
        have hne : Ty.float ≠ common := fun he => hnumeric (he ▸ rfl)
        refine .ite (.pure (.of_no_names rfl)) ?_
        exact (Knows.mismatch (.of_no_names rfl) hc hne span).behind fun _ =>
          .pure (.of_no_names rfl)

theorem unaryTy_knows (op : UnaryOp) {operand : TypedNode} (h : operand.ty.Named) :
    Knows (unaryTy op operand) Ty.Named := by
  unfold unaryTy
  split
  · split
    · exact .pure h
    · next hnumeric =>
      have hne : Ty.float ≠ operand.ty := fun he => hnumeric (he ▸ rfl)
      exact (Knows.mismatch (.of_no_names rfl) h hne _).behind fun _ =>
        .pure (.of_no_names rfl)
  · exact (Knows.expectAssignable h (.of_no_names rfl) _).behind fun _ =>
      .pure (.of_no_names rfl)

theorem elementTy_knows (iterable : TypedNode) (h : iterable.ty.Named) :
    Knows (elementTy iterable) Ty.Named := by
  unfold elementTy
  split
  · next inner hi =>
    rw [hi] at h
    exact .pure h
  · exact .pure (.of_no_names rfl)
  · next harray _ =>
    have hne : Ty.array .unknown ≠ iterable.ty := fun he => harray _ he.symm
    exact (Knows.mismatch (.of_no_names rfl) h hne _).behind fun _ =>
      .pure (.of_no_names rfl)

theorem indexedTy_knows (object : TypedNode) (h : object.ty.Named) :
    Knows (indexedTy object) Ty.Named := by
  unfold indexedTy
  split
  · exact .pure (.of_no_names rfl)
  · exact elementTy_knows object h

theorem joinElement_knows {common : Ty} (element : TypedNode) (hc : common.Named)
    (he : element.ty.Named) : Knows (joinElement common element) Ty.Named := by
  unfold joinElement
  split
  · next ty hty => exact .pure (hc.common he hty)
  · next hnone =>
    have hne : common ≠ element.ty := by
      intro heq
      rw [heq, Ty.common?_self] at hnone
      cases hnone
    exact (Knows.mismatch hc he hne _).behind fun _ => .pure hc

theorem declarePattern_knows {scrutinee : Ty} (h : scrutinee.Named) (pattern : ArmPattern)
    (span : Span) : Knows (declarePattern scrutinee pattern span) fun _ => True := by
  have hnothing : Knows (declarePattern scrutinee .none span) fun _ => True := by
    unfold declarePattern
    dsimp only
    split
    · exact .pure trivial
    · exact .pure trivial
    · next hoption _ =>
      have hne : Ty.option .unknown ≠ scrutinee := fun he => hoption _ he.symm
      exact .mismatch (.of_no_names rfl) h hne span
  cases pattern with
  | wildcard => exact .pure trivial
  | none => exact hnothing
  | some name nameSpan =>
    rw [declarePattern_some]
    refine hnothing.behind fun _ => .declare name ?_
    cases scrutinee with
    | option inner => exact h
    | _ => exact .of_no_names rfl

section

variable (cx : CheckContext)

theorem undefinedClass_knows (name : String) (span : Span) :
    Knows (cx.undefinedClass name span) fun _ => True :=
  .ite (.pure trivial) (.report (by rintro _ ⟨⟩) span)

theorem checkAnnotation_knows (ty : Ty) (span : Span) :
    Knows (cx.checkAnnotation ty span) fun _ => True :=
  .forM fun name _ => .ite (.pure trivial) (undefinedClass_knows cx name span)

theorem declareParams_knows {params : List Param} (h : Annotated (paramAnnotations params)) :
    Knows (cx.declareParams params) fun _ => True :=
  .forM fun p hp => (checkAnnotation_knows cx p.ty p.span).behind fun _ =>
    .declare p.name (h _ (List.mem_map_of_mem hp))

end

section

variable {cx : CheckContext} (hr : cx.registry.Named)
include hr

theorem identTy_knows (node : Nat) (name : String) : Knows (cx.identTy node name) Ty.Named := by
  unfold CheckContext.identTy
  have hmissing : Ty.unknown.Named := .of_no_names rfl
  split
  · refine .get fun s hs => .pure ?_
    cases hl : s.locals.lookup name with
    | none => exact hmissing
    | some ty => exact hs.lookup hl
  · next path idx _ =>
    refine .pure ?_
    cases hf : cx.registry.functionAt? path idx with
    | none => exact hmissing
    | some f => exact hr.functionAt? hf
  · next path idx _ =>
    refine .pure ?_
    cases hc : cx.registry.classAt? path idx with
    | none => exact hmissing
    | some c => exact List.forall_mem_singleton.2 (hr.classAt? hc).name
  · next path idx member _ =>
    refine .pure ?_
    cases hm : cx.registry.memberAt? path idx member with
    | none => exact hmissing
    | some m => exact hr.memberAt? hm
  · exact .pure hmissing

theorem moduleMemberTy_knows (path name : String) (span : Span) :
    Knows (cx.moduleMemberTy path name span) Ty.Named := by
  have hmissing : Ty.unknown.Named := .of_no_names rfl
  unfold CheckContext.moduleMemberTy
  split
  · exact .pure hmissing
  · next m hm =>
    split
    · exact .reportThen (by rintro _ ⟨⟩) _ hmissing
    · next symbol _ =>
      refine .reportUnless (by rintro _ ⟨⟩) _ ?_
      split
      · next idx _ =>
        cases hf : m.decls.functions[idx]? with
        | none => exact hmissing
        | some f => exact f.signature_named ((hr path m hm).functions f (List.mem_of_getElem? hf))
      · next idx _ =>
        cases hc : m.decls.classes[idx]? with
        | none => exact hmissing
        | some c =>
          have hc := (hr path m hm).classes c (List.mem_of_getElem? hc)
          exact List.forall_mem_singleton.2 hc.name
      · exact hmissing

theorem classMemberTy_knows (className name : String) (fromClass : Bool) (span : Span) :
    Knows (cx.classMemberTy className name fromClass span) Ty.Named := by
  have hmissing : Ty.unknown.Named := .of_no_names rfl
  unfold CheckContext.classMemberTy
  split
  · exact (undefinedClass_knows cx _ _).behind fun _ => .pure hmissing
  · next owner decl hcls =>
    split
    · exact .reportThen (by rintro _ ⟨⟩) _ hmissing
    · next member hm =>
      refine .ite (.reportThen (by rintro _ ⟨⟩) _ hmissing) ?_
      exact .reportUnless (by rintro _ ⟨⟩) _ ((hr.classDecl? hcls).1.member hm)

theorem valueMemberTy_knows {receiver : Ty} (h : receiver.Named) (name : String)
    (fromClass : Bool) (span : Span) :
    Knows (cx.valueMemberTy receiver name fromClass span) Ty.Named := by
  unfold CheckContext.valueMemberTy
  split
  · exact classMemberTy_knows hr _ _ _ _
  · exact .pure h
  · split
    · next ty hty => exact .pure (h.builtinMember hty)
    · exact .reportThen (by rintro _ ⟨⟩) _ (.of_no_names rfl)

theorem instanceTy_knows (className : String) (span : Span) :
    Knows (cx.instanceTy className span) Ty.Named := by
  unfold CheckContext.instanceTy
  split
  · next owner decl hcls =>
    obtain ⟨hdecl, hname⟩ := hr.classDecl? hcls
    refine .reportUnless (by rintro _ ⟨⟩) _ (List.forall_mem_singleton.2 ?_)
    exact hname ▸ hdecl.name
  · exact (undefinedClass_knows cx _ _).behind fun _ => .pure (.of_no_names rfl)

end

section

variable {cx : CheckContext}

/-- What is returned fits the innermost function, if there is one. -/
theorem returned_knows {ty : Ty} (h : ty.Named) (span : Span) :
    Knows (do if let some expected := (← get).expected then
      Check.expectAssignable ty expected span) fun _ => True := by
  refine .get fun s hs => ?_
  cases he : s.expected with
  | none => exact .pure trivial
  | some expected => exact .expectAssignable h (hs.expected expected he) span

theorem appliedTy_knows (callee : Expr) {args : List Expr} (span : Span)
    (ha : ∀ params, TysNamed params → Knows (checkArgs cx params args) fun _ => True)
    {calleeTy : Ty} (h : calleeTy.Named) :
    Knows (cx.appliedTy callee args span calleeTy) Ty.Named := by
  have hnone : TysNamed [] := List.forall_mem_nil _
  unfold CheckContext.appliedTy
  split
  · next params ret =>
    obtain ⟨hparams, hret⟩ := Ty.named_fn.1 h
    have harity : Knows (expectArity callee params.length args.length span) fun _ => True :=
      .ite (.pure trivial) (.report (by rintro _ ⟨⟩) span)
    exact harity.behind fun _ => (ha params hparams).behind fun _ => .pure hret
  · exact (ha [] hnone).behind fun _ => .pure h
  · exact (ha [] hnone).behind fun _ =>
      .reportThen (Cause.tells_function _) _ (.of_no_names rfl)

mutual

/-- The check of an expression finds a type with names that can be written. -/
theorem checkExpr_knows (hr : cx.registry.Named) : ∀ e : Expr, Annotated e.annotations →
    Knows (checkExpr cx e) Ty.Named
  | .int node _, _ | .float node _, _ | .string node _, _ | .bool node _, _ | .noneLit node, _ =>
    (Knows.record node _).behind fun _ => .pure (.of_no_names rfl)
  | .this node, _ => by
    refine .get fun s hs => (Knows.record node _).behind fun _ => .pure ?_
    cases he : s.enclosing with
    | none => exact .of_no_names rfl
    | some name => exact List.forall_mem_singleton.2 (hs.enclosing name he)
  | .ident node name, _ => (identTy_knows hr node.id name).recorded node
  | .interpolated node parts, h =>
    (checkParts_knows hr parts h).behind fun _ => (Knows.record node _).behind fun _ =>
      .pure (.of_no_names rfl)
  | .someOf node inner, h =>
    (checkExpr_knows hr inner h).bind fun ty ht => (Knows.record node _).behind fun _ => .pure ht
  | .binary node op left right, h => by
    obtain ⟨hleft, hright⟩ := annotated_append.1 h
    refine (checkExpr_knows hr left hleft).bind fun leftTy hl => ?_
    refine (checkExpr_knows hr right hright).bind fun rightTy hr => ?_
    exact (binaryTy_knows op hl hr node.span).recorded node
  | .unary node op operand, h =>
    (checkExpr_knows hr operand h).bind fun ty ht => (unaryTy_knows op ht).recorded node
  | .assign node target value, h => by
    obtain ⟨htarget, hvalue⟩ := annotated_append.1 h
    refine (checkExpr_knows hr target htarget).bind fun targetTy ht => ?_
    refine (checkExpr_knows hr value hvalue).bind fun valueTy hv => ?_
    refine (Knows.expectAssignable hv ht _).behind fun _ => ?_
    exact (Knows.record node _).behind fun _ => .pure ht
  | .call node callee args, h => by
    obtain ⟨hcallee, hargs⟩ := annotated_append.1 h
    cases hi : cx.names.intrinsic? callee with
    | some name =>
      rw [checkExpr_call_intrinsic cx hi]
      have hty : (intrinsicTy name).Named := by
        unfold intrinsicTy
        split <;> exact .of_no_names rfl
      refine (Knows.record callee.node _).behind fun _ => ?_
      refine (checkArgs_knows hr args hargs [] (List.forall_mem_nil _)).behind fun _ => ?_
      exact (Knows.record node _).behind fun _ => .pure hty
    | none =>
      rw [checkExpr_call cx hi]
      refine (checkExpr_knows hr callee hcallee).bind fun calleeTy hc => ?_
      exact (appliedTy_knows callee node.span (checkArgs_knows hr args hargs) hc).recorded node
  | .member node object name nameSpan, h => by
    cases hb : cx.names.isBuiltin object with
    | true =>
      rw [checkExpr_member_builtin cx hb]
      refine (Knows.record object.node _).behind fun _ => ?_
      exact (Knows.record node _).behind fun _ => .pure (.of_no_names rfl)
    | false =>
      cases ha : cx.names.aliased? object with
      | some path =>
        rw [checkExpr_member_aliased cx hb ha]
        refine (Knows.record object.node _).behind fun _ => ?_
        exact (moduleMemberTy_knows hr path name nameSpan).recorded node
      | none =>
        rw [checkExpr_member_value cx hb ha]
        refine (checkExpr_knows hr object h).bind fun objectTy ho => ?_
        exact (valueMemberTy_knows hr ho name _ nameSpan).recorded node
  | .index node object place, h => by
    obtain ⟨hobject, hplace⟩ := annotated_append.1 h
    refine (checkExpr_knows hr object hobject).bind fun objectTy ho => ?_
    refine (checkExpr_knows hr place hplace).bind fun indexTy hi => ?_
    refine (Knows.expectAssignable hi (.of_no_names rfl) _).behind fun _ => ?_
    exact (indexedTy_knows (object.typed objectTy) ho).recorded node
  | .new node className classSpan args, h =>
    (checkArgs_knows hr args h [] (List.forall_mem_nil _)).behind fun _ =>
      (instanceTy_knows hr className classSpan).recorded node
  | .array node items, h =>
    (checkItems_knows hr items h (.of_no_names rfl)).bind fun ty ht =>
      (Knows.record node _).behind fun _ => .pure ht
  | .lambda node params ret body, h => by
    obtain ⟨hret, h⟩ := List.forall_mem_cons.1 h
    obtain ⟨hparams, hbody⟩ := annotated_append.1 h
    have hrun := (declareParams_knows cx hparams).behind fun _ => checkBlock_knows hr body hbody
    refine (hrun.inScope.returning hret).behind fun _ => ?_
    exact (Knows.record node _).behind fun _ => .pure (Ty.named_fn.2 ⟨hparams.tys, hret⟩)

theorem checkArgs_knows (hr : cx.registry.Named) : ∀ args : List Expr,
    Annotated (exprsAnnotations args) → ∀ params : List Ty, TysNamed params →
      Knows (checkArgs cx params args) fun _ => True
  | [], _, [], _ | [], _, _ :: _, _ => .pure trivial
  | arg :: args, h, [], hp => by
    obtain ⟨harg, hargs⟩ := annotated_append.1 h
    exact (checkExpr_knows hr arg harg).discard.behind fun _ => checkArgs_knows hr args hargs [] hp
  | arg :: args, h, param :: params, hp => by
    obtain ⟨harg, hargs⟩ := annotated_append.1 h
    obtain ⟨hparam, hparams⟩ := tysNamed_cons.1 hp
    refine (checkExpr_knows hr arg harg).bind fun ty ht => ?_
    exact (Knows.expectAssignable ht hparam _).behind fun _ =>
      checkArgs_knows hr args hargs params hparams

theorem checkItems_knows (hr : cx.registry.Named) : ∀ items : List Expr,
    Annotated (exprsAnnotations items) → ∀ {common : Ty}, common.Named →
      Knows (checkItems cx common items) Ty.Named
  | [], _, _, hc => .pure hc
  | item :: items, h, common, hc => by
    obtain ⟨hitem, hitems⟩ := annotated_append.1 h
    refine (checkExpr_knows hr item hitem).bind fun ty ht => ?_
    exact (joinElement_knows (item.typed ty) hc ht).bind fun joined hj =>
      checkItems_knows hr items hitems hj

theorem checkParts_knows (hr : cx.registry.Named) : ∀ parts : List Part,
    Annotated (partsAnnotations parts) → Knows (checkParts cx parts) fun _ => True
  | [], _ => .pure trivial
  | .text _ :: parts, h => checkParts_knows hr parts h
  | .hole e :: parts, h => by
    obtain ⟨he, hparts⟩ := annotated_append.1 h
    exact (checkExpr_knows hr e he).discard.behind fun _ => checkParts_knows hr parts hparts

/-- The check of a statement gives variables types with names that can be written. -/
theorem checkStmt_knows (hr : cx.registry.Named) : ∀ stmt : Stmt, Annotated stmt.annotations →
    Knows (checkStmt cx stmt) fun _ => True
  | .letStmt name _ none value _ _, h =>
    (checkExpr_knows hr value h).bind fun ty ht => .declare name ht
  | .letStmt name _ (some ty) value nameSpan _, h => by
    obtain ⟨hvalue, hty⟩ := annotated_append.1 h
    have hty : ty.Named := hty _ (List.mem_singleton_self _)
    refine (checkExpr_knows hr value hvalue).bind fun valueTy hv => ?_
    refine (checkAnnotation_knows cx ty nameSpan).behind fun _ => ?_
    exact (Knows.expectAssignable hv hty _).behind fun _ => .declare name hty
  | .returnStmt none span, _ => returned_knows (.of_no_names rfl) span
  | .returnStmt (some value) _, h =>
    (checkExpr_knows hr value h).bind fun ty ht => returned_knows ht value.span
  | .ifStmt condition body none _, h | .whileStmt condition body _, h => by
    obtain ⟨hcondition, hbody⟩ := annotated_append.1 h
    refine (checkExpr_knows hr condition hcondition).bind fun ty ht => ?_
    refine (Knows.expectAssignable ht (.of_no_names rfl) _).behind fun _ => ?_
    exact checkBlock_knows hr body hbody
  | .ifStmt condition body (some otherwise) _, h => by
    obtain ⟨h, hotherwise⟩ := annotated_append.1 h
    obtain ⟨hcondition, hbody⟩ := annotated_append.1 h
    refine (checkExpr_knows hr condition hcondition).bind fun ty ht => ?_
    refine (Knows.expectAssignable ht (.of_no_names rfl) _).behind fun _ => ?_
    exact (checkBlock_knows hr body hbody).behind fun _ => checkStmt_knows hr otherwise hotherwise
  | .forStmt name _ iterable body _, h => by
    obtain ⟨hiterable, hbody⟩ := annotated_append.1 h
    refine (checkExpr_knows hr iterable hiterable).bind fun ty ht => ?_
    refine (elementTy_knows (iterable.typed ty) ht).bind fun element he => ?_
    exact ((Knows.declare name he).behind fun _ => checkBlock_knows hr body hbody).inScope
  | .matchStmt scrutinee arms _, h => by
    obtain ⟨hscrutinee, harms⟩ := annotated_append.1 h
    exact (checkExpr_knows hr scrutinee hscrutinee).bind fun ty ht =>
      checkArms_knows hr arms harms ht
  | .block body, h => checkBlock_knows hr body h
  | .expr value, h => (checkExpr_knows hr value h).discard

theorem checkStmts_knows (hr : cx.registry.Named) : ∀ stmts : List Stmt,
    Annotated (stmtsAnnotations stmts) → Knows (checkStmts cx stmts) fun _ => True
  | [], _ => .pure trivial
  | stmt :: stmts, h => by
    obtain ⟨hstmt, hstmts⟩ := annotated_append.1 h
    exact (checkStmt_knows hr stmt hstmt).behind fun _ => checkStmts_knows hr stmts hstmts

theorem checkBlock_knows (hr : cx.registry.Named) : ∀ body : Block, Annotated body.annotations →
    Knows (checkBlock cx body) fun _ => True
  | ⟨stmts, _⟩, h => (checkStmts_knows hr stmts h).inScope

theorem checkArms_knows (hr : cx.registry.Named) : ∀ arms : List Arm,
    Annotated (armsAnnotations arms) → ∀ {scrutinee : Ty}, scrutinee.Named →
      Knows (checkArms cx scrutinee arms) fun _ => True
  | [], _, _, _ => .pure trivial
  | ⟨pattern, body, span⟩ :: arms, h, scrutinee, hs => by
    obtain ⟨hbody, harms⟩ := annotated_append.1 h
    have hrun := (declarePattern_knows hs pattern span).behind fun _ =>
      checkBlock_knows hr body hbody
    exact hrun.inScope.behind fun _ => checkArms_knows hr arms harms hs

end

end

/-! ### The check of a module -/

section

variable {cx : CheckContext} (hr : cx.registry.Named)
include hr

theorem checkFunction_knows {f : FunctionDecl} (h : Annotated f.annotations) :
    Knows (checkFunction cx f) fun _ => True := by
  obtain ⟨hret, h⟩ := List.forall_mem_cons.1 h
  obtain ⟨hparams, hbody⟩ := annotated_append.1 h
  have hrun := (declareParams_knows cx hparams).behind fun _ => checkBlock_knows hr f.body hbody
  have hf := (checkAnnotation_knows cx f.ret f.nameSpan).behind fun _ => hrun.inScope
  exact hf.returning hret

theorem checkField_knows {f : FieldDecl} (h : Annotated f.annotations) :
    Knows (checkField cx f) fun _ => True := by
  obtain ⟨hty, h⟩ := List.forall_mem_cons.1 h
  refine (checkAnnotation_knows cx f.ty f.span).behind fun _ => ?_
  cases hi : f.initial with
  | none => exact .pure trivial
  | some value =>
    rw [hi] at h
    exact (checkExpr_knows hr value (annotated_append.1 h).1).bind fun ty ht =>
      .expectAssignable ht hty _

theorem checkClass_knows {c : ClassDecl} (h : c.Named) :
    Knows (checkClass cx c) fun _ => True := by
  obtain ⟨hfields, hmethods⟩ := annotated_append.1 h.annotations
  have hf : Knows (c.fields.forM (checkField cx)) fun _ => True :=
    .forM fun f hm => checkField_knows hr (annotated_flatMap.1 hfields f hm)
  have hm : Knows (c.methods.forM (checkFunction cx)) fun _ => True :=
    .forM fun m hm => checkFunction_knows hr (annotated_flatMap.1 hmethods m hm)
  exact (hf.behind fun _ => hm).inClass h.name

theorem checkModule_knows (h : cx.module.decls.Named) :
    Knows (checkModule cx) fun _ => True := by
  have hclasses : Knows (cx.module.decls.classes.forM (checkClass cx)) fun _ => True :=
    .forM fun c hc => checkClass_knows hr (h.classes c hc)
  have hfunctions : Knows (cx.module.decls.functions.forM (checkFunction cx)) fun _ => True :=
    .forM fun f hf => checkFunction_knows hr (h.functions f hf)
  exact (hclasses.behind fun _ => hfunctions).inScope

end

/-- Where the names of classes can be written, mismatches tell two types apart. -/
theorem Registry.check_tells {r : Registry} (hr : r.Named) (names : Names) :
    ∀ d ∈ (r.check names).errors, d.cause.Tells := by
  unfold Registry.check
  split
  · exact List.forall_mem_nil _
  · next m hm =>
    have hfinds : Knows (checkModule ⟨r, names, m⟩) fun _ => True :=
      checkModule_knows hr (hr _ m hm)
    exact fun d hd => (hfinds {} Checker.named_empty).1.errors d (Array.mem_toList_iff.1 hd)

/-- **A mismatch shows two different types**, with two exceptions. What is expected and what is
there are shown by one text only if that text has two meanings, an array of functions being one of
them, or if an instance of a class `function` is called. -/
theorem mismatch_tells {c : Compilation} (h : c.Reachable) (names : Names) :
    ∀ d ∈ (c.registry.check names).errors, ∀ text, d.cause = .typeMismatch text text →
      text = "function" ∨ Ambiguous text :=
  Registry.check_tells h.named names

/-- An array of functions is compared with a function that returns an array, and an instance of a
class `function` is called. -/
def shownAlike : Compilation :=
  ({} : Compilation).add "main.mg"
    ("fn f(a: Array<fn() -> int>, b: fn() -> int[]) \x7b a == b; \x7d " ++
      "class function \x7b \x7d fn g(x: function) \x7b x(); \x7d")
    (.root "app")

/-- The check of its module: what is found to be wrong, and the types of the parts. -/
theorem shownAlike_run :
    let found := shownAlike.registry.check (shownAlike.registry.names "main")
    found.errors =
        [⟨.typeMismatch "fn() -> int[]" "fn() -> int[]", ⟨"main.mg", 48, 54⟩⟩,
         ⟨.typeMismatch "function" "function", ⟨"main.mg", 97, 98⟩⟩] ∧
      found.nodes.map (·.ty) =
        [.array (.fn [] .int), .fn [] (.array .int), .bool, .named "function", .unknown] := by
  decide +kernel

/-- The operands have different types, and these are shown by one text. -/
theorem mismatch_tells_shownAlike :
    shownAlike.Reachable ∧
      (∃ d ∈ (shownAlike.registry.check (shownAlike.registry.names "main")).errors,
        d.cause = .typeMismatch "fn() -> int[]" "fn() -> int[]") ∧
      ("fn() -> int[]" = "function" ∨ Ambiguous "fn() -> int[]") := by
  have hreachable : shownAlike.Reachable := .add .initial _ _ _
  obtain ⟨herrors, -⟩ := shownAlike_run
  have hmem : ⟨.typeMismatch "fn() -> int[]" "fn() -> int[]", ⟨"main.mg", 48, 54⟩⟩ ∈
      (shownAlike.registry.check (shownAlike.registry.names "main")).errors :=
    herrors ▸ List.mem_cons_self
  exact ⟨hreachable, ⟨_, hmem, rfl⟩, mismatch_tells hreachable _ _ hmem _ rfl⟩

/-- Not every mismatch shows two texts: the operands that are compared here are shown by one. -/
theorem mismatch_alike :
    ¬ ∀ c : Compilation, c.Reachable → ∀ names : Names,
      ∀ d ∈ (c.registry.check names).errors, ∀ expected received,
        d.cause = .typeMismatch expected received → expected ≠ received := by
  intro hall
  obtain ⟨herrors, -⟩ := shownAlike_run
  exact hall shownAlike (.add .initial _ _ _) _ _ (herrors ▸ List.mem_cons_self) _ _ rfl rfl

end MgLang
