import MgLang.Proofs.CheckRun
/-!
# Variables in both walks

The walk that binds names and the walk that finds types keep scopes of their own. Here they are put
side by side: a `Visit` is an expression that the check of types comes to, with the state of the
check there and the variables that have been declared, each with the place of its declaration and
the type that it got there. Every visit meets a site (`checkExpr_traced`), where the environment
holds those same variables in that same order.

The main statement is `locals_agree`: an identifier that refers to a variable gets the type that the
declaration it refers to has stored.
-/

namespace MgLang

open Check

/-- An expression that a type check comes to. -/
structure Visit where
  expr : Expr
  /-- What the check knows when it starts with the expression. -/
  state : Checker
  /-- The variables in sight, the innermost declaration first. -/
  locals : List Local

/-! ### The visits of a type check -/

/-- The types that the arguments of a call are checked against, from the type of what is called. -/
def CheckContext.expectCallable (callee : Expr) (received : Nat) (span : Span) (calleeTy : Ty) :
    Check (List Ty) :=
  match calleeTy with
  | .fn params _ => do
    expectArity callee params.length received span
    return params
  | _ => return []

mutual

/-- The visits within an expression. What stands before a dot or is called is left out where it is
no value. -/
def Expr.visits (cx : CheckContext) (Γ : List Local) (s : Checker) (e : Expr) : List Visit :=
  ⟨e, s, Γ⟩ ::
    match e with
    | .int _ _ | .float _ _ | .string _ _ | .bool _ _ | .ident _ _ | .this _ | .noneLit _ => []
    | .interpolated _ parts => partsVisits cx Γ s parts
    | .someOf _ inner => inner.visits cx Γ s
    | .binary _ _ left right =>
      left.visits cx Γ s ++ right.visits cx Γ ((checkExpr cx left).after s)
    | .unary _ _ operand => operand.visits cx Γ s
    | .assign _ target value =>
      target.visits cx Γ s ++ value.visits cx Γ ((checkExpr cx target).after s)
    | .call node callee args =>
      match cx.names.intrinsic? callee with
      | some _ => argsVisits cx [] Γ ((record callee.node .unknown).after s) args
      | none =>
        let called := do
          CheckContext.expectCallable callee args.length node.span (← checkExpr cx callee)
        callee.visits cx Γ s ++ argsVisits cx (called.result s) Γ (called.after s) args
    | .member _ object _ _ =>
      if cx.names.isBuiltin object || (cx.names.aliased? object).isSome then []
      else object.visits cx Γ s
    | .index _ object index =>
      object.visits cx Γ s ++ index.visits cx Γ ((checkExpr cx object).after s)
    | .new _ _ _ args => argsVisits cx [] Γ s args
    | .array _ items => itemsVisits cx .unknown Γ s items
    | .lambda _ params ret body =>
      body.visits cx (paramLocals params ++ Γ)
        ((cx.declareParams params).after { s with expected := some ret }.push)

/-- The visits within arguments. -/
def argsVisits (cx : CheckContext) (params : List Ty) (Γ : List Local) (s : Checker) :
    List Expr → List Visit
  | [] => []
  | arg :: args =>
    arg.visits cx Γ s ++ argsVisits cx params.tail Γ ((checkArgs cx params [arg]).after s) args

/-- The visits within the elements of an array. -/
def itemsVisits (cx : CheckContext) (common : Ty) (Γ : List Local) (s : Checker) :
    List Expr → List Visit
  | [] => []
  | item :: items =>
    item.visits cx Γ s ++
      itemsVisits cx ((checkItems cx common [item]).result s) Γ
        ((checkItems cx common [item]).after s) items

/-- The visits within the holes of an interpolated string. -/
def partsVisits (cx : CheckContext) (Γ : List Local) (s : Checker) : List Part → List Visit
  | [] => []
  | .text _ :: parts => partsVisits cx Γ s parts
  | .hole e :: parts => e.visits cx Γ s ++ partsVisits cx Γ ((checkExpr cx e).after s) parts

/-- The visits within a statement. -/
def Stmt.visits (cx : CheckContext) (Γ : List Local) (s : Checker) : Stmt → List Visit
  | .letStmt _ _ _ value _ _ => value.visits cx Γ s
  | .returnStmt none _ => []
  | .returnStmt (some value) _ => value.visits cx Γ s
  | .ifStmt condition body none _ | .whileStmt condition body _ =>
    condition.visits cx Γ s ++ body.visits cx Γ ((checkCondition cx condition).after s)
  | .ifStmt condition body (some otherwise) _ =>
    condition.visits cx Γ s ++ body.visits cx Γ ((checkCondition cx condition).after s) ++
      otherwise.visits cx Γ ((checkBranch cx condition body).after s)
  | .forStmt name nameSpan iterable body _ =>
    let element := (checkIterable cx iterable).result s
    iterable.visits cx Γ s ++
      body.visits cx (⟨name, nameSpan, element⟩ :: Γ)
        ((declare name element).after ((checkIterable cx iterable).after s).push)
  | .matchStmt scrutinee arms _ =>
    scrutinee.visits cx Γ s ++
      armsVisits cx ((checkExpr cx scrutinee).result s) Γ ((checkExpr cx scrutinee).after s) arms
  | .block body => body.visits cx Γ s
  | .expr value => value.visits cx Γ s

/-- The visits within the statements of a block. -/
def stmtsVisits (cx : CheckContext) (Γ : List Local) (s : Checker) : List Stmt → List Visit
  | [] => []
  | stmt :: stmts =>
    stmt.visits cx Γ s ++
      stmtsVisits cx (stmt.locals cx s ++ Γ) ((checkStmt cx stmt).after s) stmts

/-- The visits within a block. -/
def Block.visits (cx : CheckContext) (Γ : List Local) (s : Checker) : Block → List Visit
  | ⟨stmts, _⟩ => stmtsVisits cx Γ s.push stmts

/-- The visits within the arms of a `match`. -/
def armsVisits (cx : CheckContext) (scrutinee : Ty) (Γ : List Local) (s : Checker) :
    List Arm → List Visit
  | [] => []
  | ⟨pattern, body, span⟩ :: arms =>
    body.visits cx (pattern.locals scrutinee ++ Γ)
        ((declarePattern scrutinee pattern span).after s.push) ++
      armsVisits cx scrutinee Γ ((checkArms cx scrutinee [⟨pattern, body, span⟩]).after s) arms

end

/-- The visits of a check that goes through a list. -/
def visitAll {β : Type} (check : β → Check Unit) (visits : Checker → β → List Visit) (s : Checker) :
    List β → List Visit
  | [] => []
  | x :: xs => visits s x ++ visitAll check visits ((check x).after s) xs

/-- The visits within a function. -/
def FunctionDecl.visits (cx : CheckContext) (s : Checker) (f : FunctionDecl) : List Visit :=
  f.body.visits cx (paramLocals f.params)
    ((cx.declareParams f.params).after
      ((cx.checkAnnotation f.ret f.nameSpan).after { s with expected := some f.ret }).push)

/-- The visits within a field. -/
def FieldDecl.visits (cx : CheckContext) (s : Checker) (f : FieldDecl) : List Visit :=
  match f.initial with
  | none => []
  | some value => value.visits cx [] ((cx.checkAnnotation f.ty f.span).after s)

/-- The visits within a class. -/
def ClassDecl.visits (cx : CheckContext) (s : Checker) (c : ClassDecl) : List Visit :=
  let inside := { s with enclosing := some c.name }
  visitAll (checkField cx) (FieldDecl.visits cx) inside c.fields ++
    visitAll (checkFunction cx) (FunctionDecl.visits cx)
      ((c.fields.forM (checkField cx)).after inside) c.methods

/-- The visits of the check of a module. -/
def CheckContext.visits (cx : CheckContext) : List Visit :=
  let start := Checker.push {}
  visitAll (checkClass cx) (ClassDecl.visits cx) start cx.module.decls.classes ++
    visitAll (checkFunction cx) (FunctionDecl.visits cx)
      ((cx.module.decls.classes.forM (checkClass cx)).after start) cx.module.decls.functions

/-! ### Sites and visits side by side -/

/-- What has been found so far, faults and types, is still known later on. -/
structure Checker.Grows (s s' : Checker) : Prop where
  errors : s.errors.toList <+: s'.errors.toList
  types : ∀ t ∈ s.types.toList, t ∈ s'.types.toList

theorem Checker.Grows.refl (s : Checker) : s.Grows s :=
  ⟨List.prefix_refl _, fun _ ht => ht⟩

theorem Checker.Grows.trans {s s' s'' : Checker} (h : s.Grows s') (h' : s'.Grows s'') :
    s.Grows s'' :=
  ⟨h.errors.trans h'.errors, fun t ht => h'.types t (h.types t ht)⟩

theorem Checker.Steps.grows {ls : List Local} {ns : List Node} {s s' : Checker}
    (h : Checker.Steps ls ns s s') : s.Grows s' :=
  ⟨h.errors, fun _ ht => h.types_subset ht⟩

/-- Nothing in the environment is a variable. -/
def Env.Global (env : Env) : Prop :=
  ∀ d ∈ env, ∀ x span, d.2 ≠ .variable x span

/-- A state of the check and an environment hold the same variables. -/
structure Stands (s : Checker) (Γ : List Local) (env : Env) : Prop where
  open_scope : s.locals.frames ≠ []
  slots : s.locals.frames.flatten = Γ.map Local.slot
  entries : ∃ outer : Env, outer.Global ∧ env = Γ.map Local.entry ++ outer

/-- The site holds an identifier that refers to a variable. -/
def Site.IsVariable (names : Names) (σ : Site) : Prop :=
  ∃ node name x span, σ.expr = .ident node name ∧
    names.binding? node.id = some (.variable x span)

/-- What stands at the site names an intrinsic, a module or something built in. Where that is called
or has a member taken from it, it is no value. -/
def Site.NamesNoValue (names : Names) (σ : Site) : Prop :=
  (names.intrinsic? σ.expr).isSome ∨ (names.aliased? σ.expr).isSome ∨ names.isBuiltin σ.expr

/-- A visit is at a site, and what is found by the end of it is still known when the check is
done. -/
structure Meets (cx : CheckContext) (done : Checker) (σ : Site) (v : Visit) : Prop where
  expr : σ.expr = v.expr
  stands : Stands v.state v.locals σ.env
  kept : ((checkExpr cx v.expr).after v.state).Grows done

/-- The visits are at the sites, in their order. A site may be left out if it names no value. -/
inductive Follows (cx : CheckContext) (done : Checker) : List Site → List Visit → Prop
  | nil : Follows cx done [] []
  | visit {σ v σs vs} (h : Meets cx done σ v) (hs : Follows cx done σs vs) :
      Follows cx done (σ :: σs) (v :: vs)
  | skip {σ σs vs} (h : σ.NamesNoValue cx.names) (hs : Follows cx done σs vs) :
      Follows cx done (σ :: σs) vs

/-- A variable is a value. -/
theorem Site.IsVariable.not_namesNoValue {names : Names} {σ : Site} (h : σ.IsVariable names) :
    ¬ σ.NamesNoValue names := by
  obtain ⟨node, name, x, span, he, hb⟩ := h
  simp [NamesNoValue, he, Names.intrinsic?, Names.aliased?, Names.isBuiltin, hb]

/-- What a visit results in is recorded. -/
theorem Meets.recorded {cx : CheckContext} {done : Checker} {σ : Site} {v : Visit}
    (h : Meets cx done σ v) :
    ⟨v.expr.node, (checkExpr cx v.expr).result v.state⟩ ∈ done.types.toList :=
  h.kept.types _ (checkExpr_records cx v.expr v.state)

/-- Checking a piece visits the sites in it, and keeps what has been found. -/
structure Traced {α : Type} (cx : CheckContext) (x : Check α) (s : Checker) (σs : List Site)
    (vs : List Visit) : Prop where
  grows : s.Grows (x.after s)
  follows : Follows cx (x.after s) σs vs

namespace Stands

variable {s s' : Checker} {Γ : List Local} {env : Env}

theorem push (h : Stands s Γ env) : Stands s.push Γ env :=
  ⟨by simp [Checker.push, ScopeStack.push],
    by simpa [Checker.push, ScopeStack.push] using h.slots, h.entries⟩

theorem returning (h : Stands s Γ env) (ty : Ty) : Stands { s with expected := some ty } Γ env :=
  ⟨h.open_scope, h.slots, h.entries⟩

/-- Declarations of the same variables on both sides. -/
theorem steps {ls : List Local} {ns : List Node} (h : Stands s Γ env)
    (hs : Checker.Steps ls ns s s') : Stands s' (ls ++ Γ) (ls.map Local.entry ++ env) := by
  obtain ⟨outer, hg, he⟩ := h.entries
  refine ⟨hs.open_scope h.open_scope, ?_, outer, hg, ?_⟩
  · rw [hs.flatten h.open_scope, h.slots, List.map_append]
  · rw [he, List.map_append, List.append_assoc]

theorem keeps {α : Type} {x : Check α} {ns : List Node} (h : Stands s Γ env) (hx : Keeps x ns) :
    Stands (x.after s) Γ env :=
  h.steps (hx s)

/-- What the environment says of a variable, the check knows of the same declaration. -/
theorem lookup (h : Stands s Γ env) {name x : String} {span : Span}
    (hl : env.lookup name = some (.variable x span)) :
    ∃ ty, Γ.find? (·.name == name) = some ⟨name, span, ty⟩ ∧ x = name ∧
      s.locals.lookup name = some ty := by
  obtain ⟨outer, hg, rfl⟩ := h.entries
  rw [ScopeStack.lookup_eq_flatten, h.slots]
  clear h
  induction Γ with
  | nil =>
    obtain ⟨before, behind, he, -⟩ := List.lookup_eq_some_iff.1 hl
    have hm : (name, Binding.variable x span) ∈ outer := by
      rw [List.map_nil, List.nil_append] at he
      simp [he]
    exact absurd rfl (hg _ hm x span)
  | cons l Γ ih =>
    by_cases hn : name = l.name
    · subst hn
      have he : l.name = x ∧ l.span = span := by simpa [Local.entry, List.lookup_cons] using hl
      obtain ⟨rfl, rfl⟩ := he
      exact ⟨l.ty, by simp, rfl, by simp [Local.slot]⟩
    · have hb : (name == l.name) = false := beq_false_of_ne hn
      have hb' : (l.name == name) = false := beq_false_of_ne (Ne.symm hn)
      have hl' : (Γ.map Local.entry ++ outer).lookup name = some (.variable x span) := by
        simpa [Local.entry, List.lookup_cons, hb] using hl
      obtain ⟨ty, hf, hx, ht⟩ := ih hl'
      exact ⟨ty, by simpa [hb'] using hf, hx, by simpa [Local.slot, List.lookup_cons, hb] using ht⟩

end Stands

namespace Follows

variable {cx : CheckContext} {done done' : Checker} {σs σs' : List Site} {vs vs' : List Visit}

theorem append (h : Follows cx done σs vs) (h' : Follows cx done σs' vs') :
    Follows cx done (σs ++ σs') (vs ++ vs') := by
  induction h with
  | nil => exact h'
  | visit hm _ ih => exact .visit hm ih
  | skip hm _ ih => exact .skip hm ih

theorem mono (h : Follows cx done σs vs) (hd : done.Grows done') : Follows cx done' σs vs := by
  induction h with
  | nil => exact .nil
  | visit hm _ ih => exact .visit ⟨hm.expr, hm.stands, hm.kept.trans hd⟩ ih
  | skip hm _ ih => exact .skip hm ih

theorem exists_site (h : Follows cx done σs vs) {v : Visit} (hv : v ∈ vs) :
    ∃ σ ∈ σs, Meets cx done σ v := by
  induction h with
  | nil => contradiction
  | visit hm _ ih =>
    rcases List.mem_cons.1 hv with rfl | hv
    · exact ⟨_, List.mem_cons_self, hm⟩
    · obtain ⟨σ, hσ, hm⟩ := ih hv
      exact ⟨σ, List.mem_cons_of_mem _ hσ, hm⟩
  | skip _ _ ih =>
    obtain ⟨σ, hσ, hm⟩ := ih hv
    exact ⟨σ, List.mem_cons_of_mem _ hσ, hm⟩

theorem exists_visit_of_value (h : Follows cx done σs vs) {σ : Site} (hσ : σ ∈ σs)
    (hi : ¬ σ.NamesNoValue cx.names) : ∃ v ∈ vs, Meets cx done σ v := by
  induction h with
  | nil => contradiction
  | visit hm _ ih =>
    rcases List.mem_cons.1 hσ with rfl | hσ
    · exact ⟨_, List.mem_cons_self, hm⟩
    · obtain ⟨v, hv, hm⟩ := ih hσ
      exact ⟨v, List.mem_cons_of_mem _ hv, hm⟩
  | skip hn _ ih =>
    rcases List.mem_cons.1 hσ with rfl | hσ
    · exact absurd hn hi
    · exact ih hσ

theorem exists_visit (h : Follows cx done σs vs) {σ : Site} (hσ : σ ∈ σs)
    (hi : σ.IsVariable cx.names) : ∃ v ∈ vs, Meets cx done σ v :=
  h.exists_visit_of_value hσ hi.not_namesNoValue

end Follows

namespace Traced

variable {α β : Type} {cx : CheckContext} {s : Checker} {σs σs' : List Site} {vs vs' : List Visit}

theorem of_keeps {x : Check α} {ns : List Node} (h : Keeps x ns) : Traced cx x s [] [] :=
  ⟨(h s).grows, .nil⟩

theorem bind {x : Check α} {f : α → Check β} (hx : Traced cx x s σs vs)
    (hf : Traced cx (f (x.result s)) (x.after s) σs' vs') :
    Traced cx (x >>= f) s (σs ++ σs') (vs ++ vs') :=
  ⟨hx.grows.trans hf.grows, (hx.follows.mono hf.grows).append hf.follows⟩

/-- Behind a piece, a step in which there is nothing to visit. -/
theorem before {x : Check α} {f : α → Check β} {ns : List Node} (hx : Traced cx x s σs vs)
    (hf : ∀ a, Keeps (f a) ns) : Traced cx (x >>= f) s σs vs := by
  have h := hx.bind (of_keeps (hf (x.result s)))
  rw [List.append_nil, List.append_nil] at h
  exact h

/-- Before a piece, a step in which there is nothing to visit. -/
theorem behind {x : Check α} {f : α → Check β} {ls : List Local} {ns : List Node}
    (hf : Traced cx (f (x.result s)) (x.after s) σs vs) (hx : Checker.Steps ls ns s (x.after s)) :
    Traced cx (x >>= f) s σs vs :=
  ⟨hx.grows.trans hf.grows, hf.follows⟩

/-- A piece is checked in another state and leaves another state behind, in which the same has been
found. -/
theorem within {x : Check α} {y : Check β} {s' : Checker} (h : Traced cx x s' σs vs)
    (hs : s.Grows s') (hd : (x.after s').Grows (y.after s)) : Traced cx y s σs vs :=
  ⟨hs.trans (h.grows.trans hd), h.follows.mono hd⟩

theorem inScope {x : Check α} (h : Traced cx x s.push σs vs) : Traced cx (inScope x) s σs vs :=
  h.within ⟨List.prefix_refl _, fun _ ht => ht⟩ ⟨List.prefix_refl _, fun _ ht => ht⟩

theorem returning {x : Check α} {ty : Ty} (h : Traced cx x { s with expected := some ty } σs vs) :
    Traced cx (returning ty x) s σs vs :=
  h.within ⟨List.prefix_refl _, fun _ ht => ht⟩ ⟨List.prefix_refl _, fun _ ht => ht⟩

theorem inClass {x : Check α} {name : String}
    (h : Traced cx x { s with enclosing := some name } σs vs) :
    Traced cx (inClass name x) s σs vs :=
  h.within ⟨List.prefix_refl _, fun _ ht => ht⟩ ⟨List.prefix_refl _, fun _ ht => ht⟩

theorem discard {x : Check α} (h : Traced cx x s σs vs) : Traced cx (discard x) s σs vs :=
  ⟨h.grows, h.follows⟩

/-- Behind a piece, variables are declared. -/
theorem ending {x : Check α} {f : α → Check β} {ls : List Local} {ns : List Node}
    (hx : Traced cx x s σs vs)
    (hf : Checker.Steps ls ns (x.after s) ((f (x.result s)).after (x.after s))) :
    Traced cx (x >>= f) s σs vs :=
  ⟨hx.grows.trans hf.grows, hx.follows.mono hf.grows⟩

/-- The expression itself is visited before those inside it. -/
theorem visit {e : Expr} {Γ : List Local} {env : Env} (hs : Stands s Γ env) (usage : Usage)
    (h : Traced cx (checkExpr cx e) s σs vs) :
    Traced cx (checkExpr cx e) s (⟨e, usage, env⟩ :: σs) (⟨e, s, Γ⟩ :: vs) :=
  ⟨h.grows, .visit ⟨rfl, hs, .refl _⟩ h.follows⟩

end Traced

/-! ### What is left out -/

section

variable {cx : CheckContext} {done : Checker}

theorem follows_intrinsic {e : Expr} {name : String} (h : cx.names.intrinsic? e = some name)
    (env : Env) (usage : Usage) : Follows cx done (e.sites env usage) [] := by
  obtain ⟨node, n, rfl⟩ := Names.exists_ident_of_intrinsic? h
  exact .skip (.inl (Option.isSome_of_eq_some h)) .nil

theorem follows_aliased {e : Expr} {path : String} (h : cx.names.aliased? e = some path)
    (env : Env) (usage : Usage) : Follows cx done (e.sites env usage) [] := by
  obtain ⟨node, n, rfl⟩ := Names.exists_ident_of_aliased? h
  exact .skip (.inr (.inl (Option.isSome_of_eq_some h))) .nil

/-- Below a member of a built-in namespace everything is built in. -/
theorem follows_builtin : ∀ {e : Expr}, cx.names.isBuiltin e = true → ∀ (env : Env) (usage : Usage),
    Follows cx done (e.sites env usage) []
  | .ident _ _, h, _, _ => .skip (.inr (.inr h)) .nil
  | .member _ object _ _, h, env, _ =>
    .skip (.inr (.inr h)) (follows_builtin (e := object) h env .receiver)

end

/-! ### Both walks meet -/

section

variable (cx : CheckContext)

/-- Checking the arguments of a call visits the sites in them. -/
theorem appliedTy_traced (callee : Expr) (span : Span) (calleeTy : Ty) {args : List Expr}
    {s : Checker} {Γ : List Local} {env : Env}
    (ha : ∀ (params : List Ty) {s : Checker} {Γ : List Local} {env : Env}, Stands s Γ env →
      Traced cx (checkArgs cx params args) s (exprsSites env args) (argsVisits cx params Γ s args))
    (h : Stands s Γ env) :
    Traced cx (cx.appliedTy callee args span calleeTy) s (exprsSites env args)
      (argsVisits cx ((CheckContext.expectCallable callee args.length span calleeTy).result s) Γ
        ((CheckContext.expectCallable callee args.length span calleeTy).after s) args) := by
  cases calleeTy with
  | fn params ret =>
    have hk : Keeps (expectArity callee params.length args.length span) [] :=
      .ite (.pure ()) (.report _ _)
    exact ((ha params (h.keeps hk)).before fun _ => .pure _).behind (hk s)
  | unknown => exact (ha [] h).before fun _ => .pure _
  | _ => exact (ha [] h).before fun _ => (Keeps.report _ _).bind fun _ => .pure _

mutual

/-- Checking an expression visits the sites in it, and finds the variables there that the
environments hold. -/
theorem checkExpr_traced : ∀ (e : Expr) {s : Checker} {Γ : List Local} {env : Env} (usage : Usage),
    Stands s Γ env → Traced cx (checkExpr cx e) s (e.sites env usage) (e.visits cx Γ s)
  | .int node _, _, _, _, usage, h | .float node _, _, _, _, usage, h
  | .string node _, _, _, _, usage, h | .bool node _, _, _, _, usage, h
  | .noneLit node, _, _, _, usage, h | .this node, _, _, _, usage, h
  | .ident node _, _, _, _, usage, h =>
    .visit h usage (.of_keeps (checkExpr_keeps cx _))
  | .interpolated node parts, _, _, _, usage, h =>
    .visit h usage ((checkParts_traced parts h).before fun _ =>
      (Keeps.record node _).before fun _ => .pure _)
  | .someOf node inner, _, _, _, usage, h =>
    .visit h usage ((checkExpr_traced inner .value h).before fun _ =>
      (Keeps.record node _).before fun _ => .pure _)
  | .binary node op left right, _, _, _, usage, h => by
    have hl := checkExpr_traced left .value h
    have hr := checkExpr_traced right .value (h.keeps (checkExpr_keeps cx left))
    exact .visit h usage (hl.bind (hr.before fun _ => (binaryTy_keeps op _ _ _).recorded node))
  | .unary node op operand, _, _, _, usage, h =>
    .visit h usage ((checkExpr_traced operand .value h).before fun _ =>
      (unaryTy_keeps op _).recorded node)
  | .assign node target value, _, _, _, usage, h => by
    have ht := checkExpr_traced target .value h
    have hv := checkExpr_traced value .value (h.keeps (checkExpr_keeps cx target))
    exact .visit h usage (ht.bind (hv.before fun _ =>
      .after (fun _ => (Keeps.record node _).before fun _ => .pure _) (.expectAssignable _ _ _)))
  | .call node callee args, s, Γ, env, usage, h => by
    refine .visit h usage ?_
    cases hi : cx.names.intrinsic? callee with
    | some name =>
      rw [checkExpr_call_intrinsic cx hi]
      have hc : Traced cx (record callee.node .unknown) s (callee.sites env .callee) [] :=
        ⟨(Keeps.record _ _ s).grows, follows_intrinsic hi env .callee⟩
      have ha := checkArgs_traced args [] (h.keeps (Keeps.record callee.node .unknown))
      exact hc.bind (ha.before fun _ => (Keeps.record node _).before fun _ => .pure _)
    | none =>
      rw [checkExpr_call cx hi]
      have hc := checkExpr_traced callee .callee h
      have ha := appliedTy_traced cx callee node.span ((checkExpr cx callee).result s)
        (checkArgs_traced args) (h.keeps (checkExpr_keeps cx callee))
      exact hc.bind (ha.before fun _ => (Keeps.record node _).before fun _ => .pure _)
  | .member node object name nameSpan, s, Γ, env, usage, h => by
    refine .visit h usage ?_
    cases hb : cx.names.isBuiltin object with
    | true =>
      rw [checkExpr_member_builtin cx hb]
      have ho : Traced cx (record object.node .unknown) s (object.sites env .receiver) [] :=
        ⟨(Keeps.record _ _ s).grows, follows_builtin hb env .receiver⟩
      exact ho.before fun _ => (Keeps.record node _).before fun _ => .pure _
    | false =>
      cases ha : cx.names.aliased? object with
      | some path =>
        rw [checkExpr_member_aliased cx hb ha]
        have ho : Traced cx (record object.node .unknown) s (object.sites env .receiver) [] :=
          ⟨(Keeps.record _ _ s).grows, follows_aliased ha env .receiver⟩
        exact ho.before fun _ => (moduleMemberTy_keeps cx path name nameSpan).recorded node
      | none =>
        rw [checkExpr_member_value cx hb ha]
        exact (checkExpr_traced object .receiver h).before fun _ =>
          (valueMemberTy_keeps cx _ name _ nameSpan).recorded node
  | .index node object index, _, _, _, usage, h => by
    have ho := checkExpr_traced object .value h
    have hi := checkExpr_traced index .value (h.keeps (checkExpr_keeps cx object))
    exact .visit h usage (ho.bind (hi.before fun _ =>
      .after (fun _ => (indexedTy_keeps _).recorded node) (.expectAssignable _ _ _)))
  | .new node className classSpan args, _, _, _, usage, h =>
    .visit h usage ((checkArgs_traced args [] h).before fun _ =>
      (instanceTy_keeps cx className classSpan).recorded node)
  | .array node items, _, _, _, usage, h =>
    .visit h usage ((checkItems_traced items .unknown h).before fun _ =>
      (Keeps.record node _).before fun _ => .pure _)
  | .lambda node params ret body, s, _, _, usage, h => by
    have hp := declareParams_steps cx params (Checker.push { s with expected := some ret })
    have hs := (h.returning ret).push.steps hp
    rw [map_entry_paramLocals] at hs
    have hb : Traced cx (returning ret (inScope do
        cx.declareParams params
        checkBlock cx body)) s _ _ := ((checkBlock_traced body hs).behind hp).inScope.returning
    exact .visit h usage (hb.before fun _ => (Keeps.record node _).before fun _ => .pure _)


theorem checkArgs_traced : ∀ (args : List Expr) (params : List Ty) {s : Checker} {Γ : List Local}
    {env : Env}, Stands s Γ env →
    Traced cx (checkArgs cx params args) s (exprsSites env args) (argsVisits cx params Γ s args)
  | [], [], _, _, _, _ | [], _ :: _, _, _, _, _ => .of_keeps (.pure ())
  | arg :: args, [], _, _, _, h => by
    have ha := checkExpr_traced arg .value h
    have hs := checkArgs_traced args [] (h.keeps (checkExpr_keeps cx arg))
    exact ha.discard.bind (f := fun _ => checkArgs cx [] args) hs
  | arg :: args, param :: params, s, _, _, h => by
    have ha := checkExpr_traced arg .value h
    have hk := Keeps.expectAssignable ((checkExpr cx arg).result s) param arg.span
    have hs := checkArgs_traced args params ((h.keeps (checkExpr_keeps cx arg)).keeps hk)
    exact ha.bind (hs.behind (hk _))

theorem checkItems_traced : ∀ (items : List Expr) (common : Ty) {s : Checker} {Γ : List Local}
    {env : Env}, Stands s Γ env →
    Traced cx (checkItems cx common items) s (exprsSites env items)
      (itemsVisits cx common Γ s items)
  | [], common, _, _, _, _ => .of_keeps (.pure common)
  | item :: items, common, s, _, _, h => by
    have hi := checkExpr_traced item .value h
    have hk := joinElement_keeps common (item.typed ((checkExpr cx item).result s))
    have hs := checkItems_traced items ((checkItems cx common [item]).result s)
      ((h.keeps (checkExpr_keeps cx item)).keeps hk)
    exact hi.bind (hs.behind (hk _))

theorem checkParts_traced : ∀ (parts : List Part) {s : Checker} {Γ : List Local} {env : Env},
    Stands s Γ env →
    Traced cx (checkParts cx parts) s (partsSites env parts) (partsVisits cx Γ s parts)
  | [], _, _, _, _ => .of_keeps (.pure ())
  | .text _ :: parts, _, _, _, h => checkParts_traced parts h
  | .hole e :: parts, _, _, _, h => by
    have he := checkExpr_traced e .value h
    have hs := checkParts_traced parts (h.keeps (checkExpr_keeps cx e))
    exact he.discard.bind (f := fun _ => checkParts cx parts) hs

/-- Checking a statement visits the sites in it. -/
theorem checkStmt_traced : ∀ (stmt : Stmt) {s : Checker} {Γ : List Local} {env : Env},
    Stands s Γ env → Traced cx (checkStmt cx stmt) s (stmt.sites env) (stmt.visits cx Γ s)
  | .letStmt name _ none value nameSpan _, s, _, _, h => by
    have hv := checkExpr_traced value .value h
    have hd := declare_steps name nameSpan ((checkExpr cx value).result s)
      ((checkExpr cx value).after s)
    exact hv.ending hd
  | .letStmt name _ (some ty) value nameSpan _, s, _, _, h => by
    have hk (valueTy : Ty) : Keeps (do
        cx.checkAnnotation ty nameSpan
        expectAssignable valueTy ty value.span) [] :=
      (checkAnnotation_keeps cx ty nameSpan).bind fun _ => .expectAssignable _ _ _
    have hv := (checkExpr_traced value .value h).before hk
    exact hv.ending (f := fun _ => declare name ty) (declare_steps name nameSpan ty _)
  | .returnStmt none span, _, _, _, _ => .of_keeps (returned_keeps .void span)
  | .returnStmt (some value) _, s, _, _, h =>
    (checkExpr_traced value .value h).before fun ty => returned_keeps ty value.span
  | .ifStmt condition body none _, s, _, _, h | .whileStmt condition body _, s, _, _, h => by
    have hc : Traced cx (checkCondition cx condition) s _ _ :=
      (checkExpr_traced condition .value h).before fun _ => .expectAssignable _ _ _
    have hb := checkBlock_traced body (h.keeps (checkCondition_keeps cx condition))
    exact hc.bind (f := fun _ => checkBlock cx body) hb
  | .ifStmt condition body (some otherwise) _, s, _, _, h => by
    have hc : Traced cx (checkCondition cx condition) s _ _ :=
      (checkExpr_traced condition .value h).before fun _ => .expectAssignable _ _ _
    have hb := checkBlock_traced body (h.keeps (checkCondition_keeps cx condition))
    have ho := checkStmt_traced otherwise (h.keeps (checkBranch_keeps cx condition body))
    have ht := hc.bind (f := fun _ => checkBlock cx body) hb
    exact ht.bind (f := fun _ => checkStmt cx otherwise) ho
  | .forStmt name nameSpan iterable body _, s, _, _, h => by
    have hi : Traced cx (checkIterable cx iterable) s _ _ :=
      (checkExpr_traced iterable .value h).before fun _ => elementTy_keeps _
    have hd := declare_steps name nameSpan ((checkIterable cx iterable).result s)
      ((checkIterable cx iterable).after s).push
    have hs := (h.keeps (checkIterable_keeps cx iterable)).push.steps hd
    have hb := ((checkBlock_traced body hs).behind (f := fun _ => checkBlock cx body) hd).inScope
    exact hi.bind (f := fun element => inScope do
      declare name element
      checkBlock cx body) hb
  | .matchStmt scrutinee arms _, s, _, _, h => by
    have hv := checkExpr_traced scrutinee .value h
    exact hv.bind (checkArms_traced arms _ (h.keeps (checkExpr_keeps cx scrutinee)))
  | .block body, s, _, _, h => checkBlock_traced body h
  | .expr value, s, _, _, h => (checkExpr_traced value .value h).discard

theorem checkStmts_traced : ∀ (stmts : List Stmt) {s : Checker} {Γ : List Local} {env : Env},
    Stands s Γ env →
    Traced cx (checkStmts cx stmts) s (stmtsSites env stmts) (stmtsVisits cx Γ s stmts)
  | [], _, _, _, _ => .of_keeps (.pure ())
  | stmt :: stmts, s, _, _, h => by
    have hs := h.steps (checkStmt_steps cx stmt s)
    rw [Stmt.map_entry_locals] at hs
    exact (checkStmt_traced stmt h).bind (checkStmts_traced stmts hs)

theorem checkBlock_traced : ∀ (body : Block) {s : Checker} {Γ : List Local} {env : Env},
    Stands s Γ env → Traced cx (checkBlock cx body) s (body.sites env) (body.visits cx Γ s)
  | ⟨stmts, _⟩, _, _, _, h => (checkStmts_traced stmts h.push).inScope

theorem checkArms_traced : ∀ (arms : List Arm) (scrutinee : Ty) {s : Checker} {Γ : List Local}
    {env : Env}, Stands s Γ env →
    Traced cx (checkArms cx scrutinee arms) s (armsSites env arms)
      (armsVisits cx scrutinee Γ s arms)
  | [], _, _, _, _, _ => .of_keeps (.pure ())
  | ⟨pattern, body, span⟩ :: arms, scrutinee, s, _, _, h => by
    have hd := declarePattern_steps scrutinee pattern span s.push
    have hs := h.push.steps hd
    rw [ArmPattern.map_entry_locals] at hs
    have hb := ((checkBlock_traced body hs).behind (f := fun _ => checkBlock cx body) hd).inScope
    have hk := checkArms_keeps cx [⟨pattern, body, span⟩] scrutinee
    exact hb.bind (f := fun _ => checkArms cx scrutinee arms)
      (checkArms_traced arms scrutinee (h.keeps hk))

end

/-- A check that goes through a list. Each element is checked with no variable in sight. -/
theorem visitAll_traced {β : Type} {check : β → Check Unit} {visits : Checker → β → List Visit}
    {sites : β → Nat → List Site} {ns : β → List Node} {env : Env}
    (hk : ∀ x, Keeps (check x) (ns x))
    (ht : ∀ x i {s : Checker}, Stands s [] env → Traced cx (check x) s (sites x i) (visits s x)) :
    ∀ (xs : List β) (i : Nat) {s : Checker}, Stands s [] env →
      Traced cx (xs.forM check) s ((xs.zipIdx i).flatMap fun x => sites x.1 x.2)
        (visitAll check visits s xs)
  | [], _, _, _ => .of_keeps (.pure PUnit.unit)
  | x :: xs, i, _, h => by
    have hs := visitAll_traced hk ht xs (i + 1) (h.keeps (hk x))
    exact (ht x i h).bind (f := fun _ => xs.forM check) hs

theorem checkFunction_traced (f : FunctionDecl) {s : Checker} {env : Env} (h : Stands s [] env) :
    Traced cx (checkFunction cx f) s (f.sites env) (f.visits cx s) := by
  have ha := checkAnnotation_keeps cx f.ret f.nameSpan
  have hp := declareParams_steps cx f.params
    ((cx.checkAnnotation f.ret f.nameSpan).after { s with expected := some f.ret }).push
  have hs := ((h.returning f.ret).keeps ha).push.steps hp
  rw [map_entry_paramLocals, List.append_nil] at hs
  have hb := (checkBlock_traced cx f.body hs).behind (f := fun _ => checkBlock cx f.body) hp
  have hf := hb.inScope.behind (f := fun _ => inScope do
    cx.declareParams f.params
    checkBlock cx f.body) (ha _)
  exact hf.returning

theorem checkField_traced (f : FieldDecl) {s : Checker} {env : Env} (h : Stands s [] env) :
    Traced cx (checkField cx f) s (exprsSites env f.initial.toList) (f.visits cx s) := by
  have ha := checkAnnotation_keeps cx f.ty f.span
  refine Traced.behind ?_ (ha s)
  unfold FieldDecl.visits
  cases f.initial with
  | none => exact .of_keeps (.pure ())
  | some value =>
    have hv := checkExpr_traced cx value .value (h.keeps ha)
    have he := hv.before fun ty => Keeps.expectAssignable ty f.ty value.span
    rw [Option.toList_some, exprsSites, exprsSites, List.append_nil]
    exact he

theorem checkClass_traced (c : ClassDecl) (module : String) (idx : Nat) {s : Checker} {env : Env}
    (h : Stands s [] env) :
    Traced cx (checkClass cx c) s (c.sites env module idx) (c.visits cx s) := by
  -- The members of the class are in the environment, and the check knows nothing of them.
  have hc : Stands { s with enclosing := some c.name } [] (c.env module idx ++ env) := by
    obtain ⟨outer, hg, rfl⟩ := h.entries
    refine ⟨h.open_scope, h.slots, c.env module idx ++ env, ?_, rfl⟩
    rintro d hd x span he
    rcases List.mem_append.1 hd with hd | hd
    · obtain ⟨name, -, rfl⟩ := List.mem_map.1 (List.mem_reverse.1 hd)
      cases he
    · exact hg d hd x span he
  have hf := visitAll_traced cx (checkField_keeps cx) (fun f _ => checkField_traced cx f)
    c.fields 0 hc
  have hk := Keeps.forM (checkField_keeps cx) c.fields
  have hm := visitAll_traced cx (checkFunction_keeps cx) (fun f _ => checkFunction_traced cx f)
    c.methods 0 (hc.keeps hk)
  rw [flatMap_zipIdx_fst (fun f : FieldDecl => exprsSites _ f.initial.toList),
    flatMap_initials rfl (by simp [exprsSites])] at hf
  rw [flatMap_zipIdx_fst (FunctionDecl.sites _)] at hm
  exact (hf.bind (f := fun _ => c.methods.forM (checkFunction cx)) hm).inClass

/-- The check of a module visits its sites. -/
theorem checkModule_traced {env : Env} (hg : env.Global) :
    Traced cx (checkModule cx) {}
      (cx.module.decls.classes.zipIdx.flatMap (fun (c, idx) => c.sites env cx.module.path idx) ++
        cx.module.decls.functions.flatMap (·.sites env))
      cx.visits := by
  have h : Stands (Checker.push {}) [] env :=
    ⟨by simp [Checker.push, ScopeStack.push], rfl, env, hg, rfl⟩
  have hc := visitAll_traced cx (checkClass_keeps cx)
    (fun c idx => checkClass_traced cx c cx.module.path idx) cx.module.decls.classes 0 h
  have hk := Keeps.forM (checkClass_keeps cx) cx.module.decls.classes
  have hf := visitAll_traced cx (checkFunction_keeps cx) (fun f _ => checkFunction_traced cx f)
    cx.module.decls.functions 0 (h.keeps hk)
  rw [flatMap_zipIdx_fst (FunctionDecl.sites env)] at hf
  exact (hc.bind (f := fun _ => cx.module.decls.functions.forM (checkFunction cx)) hf).inScope

end

/-! ### Variables mean the same to both walks -/

theorem Symbol.binding_ne_variable (s : Symbol) (x : String) (span : Span) :
    s.binding ≠ .variable x span := by
  unfold Symbol.binding
  split <;> simp

/-- No variable can be seen at the top of a module. -/
theorem rootEnv_global (r : Registry) (m : Module) : (r.rootEnv m).Global := by
  rintro d hd x span he
  have hd' : d ∈ r.rootNames m := List.mem_reverse.1 hd
  simp only [Registry.rootNames, Module.exports, Builtin.names, Module.ownNames, List.mem_append,
    List.mem_flatMap, List.mem_map, List.mem_singleton] at hd'
  rcases hd' with (⟨i, -, ⟨s, -, rfl⟩ | rfl⟩ | ⟨name, -, rfl⟩ | rfl) | ⟨s, -, rfl⟩
  · exact s.binding_ne_variable x span he
  · cases he
  · cases he
  · cases he
  · exact s.binding_ne_variable x span he

section

variable {r : Registry} {path : String} {m : Module}

/-- The visits of the check of a module are at the sites of the module. -/
theorem sites_follow_visits (r : Registry) (path : String) (m : Module) :
    Follows (r.checkContext path m) ((checkModule (r.checkContext path m)).after {}) (r.sites m)
      (r.checkContext path m).visits :=
  (checkModule_traced (r.checkContext path m) (rootEnv_global r m)).follows

/-- An expression that names a value is visited, and what is found by the end of the visit is still
known when the check is done. -/
theorem exists_visit_of_value (r : Registry) (path : String) {e : Expr} (he : e ∈ m.exprs)
    (hi : (r.names path).intrinsic? e = none) (ha : (r.names path).aliased? e = none)
    (hb : (r.names path).isBuiltin e = false) :
    ∃ v ∈ (r.checkContext path m).visits, v.expr = e ∧
      ((checkExpr (r.checkContext path m) e).after v.state).Grows
        ((checkModule (r.checkContext path m)).after {}) := by
  obtain ⟨σ, hσ, rfl⟩ := List.mem_map.1 ((sites_perm_exprs r m).mem_iff.2 he)
  have hvalue : ¬ σ.NamesNoValue (r.names path) := by simp [Site.NamesNoValue, hi, ha, hb]
  obtain ⟨v, hv, hmeets⟩ := (sites_follow_visits r path m).exists_visit_of_value hσ hvalue
  refine ⟨v, hv, hmeets.expr.symm, ?_⟩
  rw [hmeets.expr]
  exact hmeets.kept

/-- What is bound to an identifier at a site is what the environment says. -/
theorem lookup_of_binding? (hm : r.find? path = some m) (hn : m.Numbered) {σ : Site}
    (hσ : σ ∈ r.sites m) {node : Node} {name : String} (he : σ.expr = .ident node name)
    {b : Binding} (hb : (r.names path).binding? node.id = some b) : σ.env.lookup name = some b := by
  have h := binding?_of_mem_sites hm hn hσ
  rw [Site.reference?, he] at h
  have hi : (Expr.ident node name).id = node.id := rfl
  rw [hi, hb] at h
  cases hl : σ.env.lookup name with
  | none => simp [hl] at h
  | some b' => simpa [hl] using h.symm

/-- **Both walks mean the same variable.** Every identifier that refers to a variable is visited by
the check of types. Wherever the check visits an expression, its own scopes and the environment of
the expression hold the variables of the same declarations in the same order; so the type that the
check finds for an identifier is the one that the declaration has stored to which it refers, and
that type is recorded. -/
theorem locals_agree (hm : r.find? path = some m) (hn : m.Numbered) :
    (∀ node name x span, .ident node name ∈ m.exprs →
        (r.names path).binding? node.id = some (.variable x span) →
        ∃ v ∈ (r.checkContext path m).visits, v.expr = .ident node name) ∧
      ∀ v ∈ (r.checkContext path m).visits,
        (∃ σ ∈ r.sites m, ∃ outer : Env, σ.expr = v.expr ∧ outer.Global ∧
          σ.env = v.locals.map Local.entry ++ outer) ∧
        v.state.locals.frames.flatten = v.locals.map Local.slot ∧
        ∀ node name x span, v.expr = .ident node name →
          (r.names path).binding? node.id = some (.variable x span) →
          ∃ ty, v.locals.find? (·.name == name) = some ⟨name, span, ty⟩ ∧ x = name ∧
            v.state.locals.lookup name = some ty ∧
            (r.check (r.names path)).typeOf? node.id = some ty := by
  have hf := sites_follow_visits r path m
  refine ⟨?_, ?_⟩
  · intro node name x span he hb
    obtain ⟨σ, hσ, hs⟩ := List.mem_map.1 ((sites_perm_exprs r m).mem_iff.2 he)
    obtain ⟨v, hv, hmeets⟩ := hf.exists_visit hσ ⟨node, name, x, span, hs, hb⟩
    exact ⟨v, hv, hmeets.expr.symm.trans hs⟩
  · intro v hv
    obtain ⟨σ, hσ, hmeets⟩ := hf.exists_site hv
    obtain ⟨outer, hg, he⟩ := hmeets.stands.entries
    refine ⟨⟨σ, hσ, outer, hmeets.expr, hg, he⟩, hmeets.stands.slots, ?_⟩
    intro node name x span hi hb
    have hl := lookup_of_binding? hm hn hσ (hmeets.expr.trans hi) hb
    obtain ⟨ty, hfind, hx, hlocal⟩ := hmeets.stands.lookup hl
    have ht := typeOf?_of_mem hm hn hmeets.recorded
    have hr : (checkExpr (r.checkContext path m) v.expr).result v.state = ty := by
      rw [hi]
      have hid : ((r.checkContext path m).identTy node.id name).result v.state = ty := by
        have hb' : (r.checkContext path m).names.binding? node.id = some (.variable x span) := hb
        simp only [CheckContext.identTy, hb']
        show (v.state.locals.lookup name).getD .unknown = ty
        rw [hlocal, Option.getD_some]
      exact hid
    rw [hr, hi] at ht
    exact ⟨ty, hfind, hx, hlocal, ht⟩

end

/-- The argument of the call refers to the `let`, and its type is the one of the parameter, from
which the `let` has it. -/
theorem locals_agree_shadowing :
    (Registry.empty.insert shadowing).find? "a" = some shadowing ∧ shadowing.Numbered ∧
      ∃ v ∈ ((Registry.empty.insert shadowing).checkContext "a" shadowing).visits,
        v.expr = .ident ⟨2, ⟨"a.mg", 28, 29⟩⟩ "x" ∧
          v.locals.find? (·.name == "x") = some ⟨"x", ⟨"a.mg", 19, 20⟩, .int⟩ ∧
          v.state.locals.lookup "x" = some .int := by
  have hm : (Registry.empty.insert shadowing).find? "a" = some shadowing := rfl
  have hn : shadowing.Numbered := by decide
  have hb : ((Registry.empty.insert shadowing).names "a").binding? 2 =
      some (.variable "x" ⟨"a.mg", 19, 20⟩) := by decide
  have hty : ((Registry.empty.insert shadowing).check
      ((Registry.empty.insert shadowing).names "a")).typeOf? 2 = some .int := by decide
  obtain ⟨hvisited, hagree⟩ := locals_agree hm hn
  obtain ⟨v, hv, he⟩ := hvisited ⟨2, ⟨"a.mg", 28, 29⟩⟩ "x" "x" ⟨"a.mg", 19, 20⟩
    (by simp [shadowing, Module.exprs, Block.within, stmtsWithin, Stmt.within, Expr.within,
      exprsWithin]) hb
  obtain ⟨ty, hfind, -, hlocal, ht⟩ := (hagree v hv).2.2 _ _ _ _ he hb
  obtain rfl : ty = .int := Option.some.inj (ht.symm.trans hty)
  exact ⟨hm, hn, v, hv, he, hfind, hlocal⟩

end MgLang
