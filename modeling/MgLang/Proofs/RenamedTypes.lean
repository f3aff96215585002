import MgLang.Proofs.Blind
import MgLang.Proofs.FailedImport
import MgLang.Proofs.Renaming
/-!
# Types after a renaming

A check of types finds a variable by its name. After a renaming it finds the same variable by the
new name, so it finds the same types. The two checks are followed side by side (`Paired`): where they
stand, the same variables have been declared at the same places with the same types (`Twins`), and
the environment of the site leads to one of them. What a check does apart from that does not depend
on variables (`Check.Blind`).

The main statement is `rename_variable`.
-/

namespace MgLang

open Check
open ScopeStack (onto)

/-! ### Two checks side by side -/

namespace Renaming

variable (ρ : Renaming) (m : Module)

/-- A variable of a check after the renaming. -/
def slot (l : Local) : String × Ty :=
  (ρ.declared l.name l.span, l.ty)

/-- The fault is the same, but for the name of what is called with a wrong number of arguments. -/
def SameFault (d d' : Diagnostic) : Prop :=
  d' = d ∨ ∃ node callee args params, .call node callee args ∈ m.exprs ∧
    d = ⟨.arityMismatch callee.calleeName params args.length, node.span⟩ ∧
    d' = ⟨.arityMismatch (callee.rename ρ).calleeName params args.length, node.span⟩

variable {ρ m}

/-- A variable has one type under both names. -/
theorem lookup_slots (Γ : List Local) (outer : Env)
    (hfresh : ∀ d ∈ Γ.map Local.entry ++ outer, d.1 ≠ ρ.new)
    (hnamed : ∀ d ∈ Γ.map Local.entry ++ outer, d.2 = ρ.target → d.1 = ρ.old) {name : String}
    {b : Binding} (h : (Γ.map Local.entry ++ outer).lookup name = some b) :
    (Γ.map ρ.slot).lookup (if b = ρ.target then ρ.new else name) =
      (Γ.map Local.slot).lookup name := by
  have hname := hfresh _ (mem_of_lookup h)
  have hown := hnamed _ (mem_of_lookup h)
  induction Γ with
  | nil => rfl
  | cons l Γ ih =>
    rw [List.map_cons, List.cons_append] at h hfresh hnamed
    rw [List.map_cons, List.map_cons, Keyed.lookup_cons, Keyed.lookup_cons]
    rw [Keyed.lookup_cons] at h
    obtain ⟨hnew, hfresh⟩ := List.forall_mem_cons.1 hfresh
    obtain ⟨hold, hnamed⟩ := List.forall_mem_cons.1 hnamed
    have hkey : (ρ.slot l).1 = (ρ.entry l.entry).1 :=
      (congrArg Prod.fst (ρ.entry_variable l.name l.span)).symm
    rw [hkey]
    by_cases hd : name = l.entry.1
    · rw [if_pos hd, Option.some.injEq] at h
      subst h
      rw [if_pos (show name = l.slot.1 from hd), hd]
      exact if_pos rfl
    · rw [if_neg hd] at h
      rw [if_neg (show ¬ name = l.slot.1 from hd), if_neg (key_ne hname hown hnew hold hd)]
      exact ih hfresh hnamed h

end Renaming

/-- Two checks stand at the same place, one of them after a renaming. They have found the same, and
the same variables are in scope: those of the innermost scope, and those of each scope around it. -/
structure Twins (ρ : Renaming) (m : Module) (Γ : List Local) (Γs : List (List Local))
    (s s' : Checker) : Prop where
  frames : s.locals.frames = (Γ :: Γs).map (·.map Local.slot)
  renamed : s'.locals.frames = (Γ :: Γs).map (·.map ρ.slot)
  expected : s'.expected = s.expected
  enclosing : s'.enclosing = s.enclosing
  types : s'.types = s.types
  errors : List.Forall₂ (ρ.SameFault m) s.errors.toList s'.errors.toList

/-- Steps of both checks come to the same result. The first environment is that before the steps and
the second that behind them; the outer one holds what is no variable. -/
def Paired {α : Type} (ρ : Renaming) (m : Module) (outer env env' : Env) (x x' : Check α) : Prop :=
  ∀ Γ Γs s s', (Γ ++ Γs.flatten).map Local.entry ++ outer = env → Twins ρ m Γ Γs s s' →
    x'.result s' = x.result s ∧
      ∃ ls : List Local, ls.map Local.entry ++ env = env' ∧
        Twins ρ m (ls ++ Γ) Γs (x.after s) (x'.after s')

namespace Paired

variable {α β : Type} {ρ : Renaming} {m : Module} {outer env env' env'' : Env} {x x' : Check α}
  {f f' : α → Check β}

theorem pure (a : α) : Paired ρ m outer env env (Pure.pure a) (Pure.pure a) :=
  fun _ _ _ _ _ h => ⟨rfl, [], rfl, h⟩

theorem bind (hx : Paired ρ m outer env env' x x')
    (hf : ∀ a, Paired ρ m outer env' env'' (f a) (f' a)) :
    Paired ρ m outer env env'' (x >>= f) (x' >>= f') := by
  intro Γ Γs s s' he h
  obtain ⟨hr, ls, hls, ht⟩ := hx Γ Γs s s' he h
  have henv : (ls ++ Γ ++ Γs.flatten).map Local.entry ++ outer = env' := by
    rw [List.append_assoc, List.map_append, List.append_assoc, he, hls]
  obtain ⟨hr', ls', hls', ht'⟩ := hf (x.result s) _ _ _ _ henv ht
  rw [result_bind, result_bind, after_bind, after_bind, hr]
  refine ⟨hr', ls' ++ ls, ?_, ?_⟩
  · rw [List.map_append, List.append_assoc, hls, hls']
  · rw [List.append_assoc]
    exact ht'

/-- A step that depends on what the check knows where it stands. -/
theorem get {f f' : Checker → Check β}
    (hf : ∀ s s' : Checker, s'.expected = s.expected → s'.enclosing = s.enclosing →
      Paired ρ m outer env env' (f s) (f' s')) :
    Paired ρ m outer env env' (MonadState.get >>= f) (MonadState.get >>= f') :=
  fun Γ Γs s s' he h => hf s s' h.expected h.enclosing Γ Γs s s' he h

theorem blind {ps : List Span} (h : Blind ps x) : Paired ρ m outer env env x x := by
  obtain ⟨a, ds, -, hx⟩ := h
  intro Γ Γs s s' _ ht
  rw [(hx s).1, (hx s').1, (hx s).2, (hx s').2]
  refine ⟨rfl, [], rfl, ht.frames, ht.renamed, ht.expected, ht.enclosing, ht.types, ?_⟩
  simp only [Array.toList_append]
  exact List.rel_append ht.errors (List.forall₂_same.2 fun d _ => .inl rfl)

theorem record (node : Node) (ty : Ty) :
    Paired ρ m outer env env (Check.record node ty) (Check.record node ty) :=
  fun _ _ _ _ _ ht => ⟨rfl, [], rfl, ht.frames, ht.renamed, ht.expected, ht.enclosing,
    congrArg (·.push ⟨node, ty⟩) ht.types, ht.errors⟩

theorem declare (name : String) (span : Span) (ty : Ty) :
    Paired ρ m outer env ((name, .variable name span) :: env) (Check.declare name ty)
      (Check.declare (ρ.declared name span) ty) := by
  intro Γ Γs s s' _ ht
  refine ⟨rfl, [⟨name, span, ty⟩], rfl, ?_, ?_, ht.expected, ht.enclosing, ht.types, ht.errors⟩
  · rw [after_declare, ScopeStack.frames_declare, ht.frames]
    rfl
  · rw [after_declare, ScopeStack.frames_declare, ht.renamed]
    rfl

theorem discard (h : Paired ρ m outer env env' x x') :
    Paired ρ m outer env env' (discard x) (discard x') :=
  fun Γ Γs s s' he ht => ⟨rfl, (h Γ Γs s s' he ht).2⟩

/-- Behind a step, the type of an expression is recorded. -/
theorem recorded {x x' : Check Ty} (h : Paired ρ m outer env env x x') (node : Node) :
    Paired ρ m outer env env (x >>= fun ty => Check.record node ty >>= fun _ => Pure.pure ty)
      (x' >>= fun ty => Check.record node ty >>= fun _ => Pure.pure ty) :=
  h.bind fun ty => (record node ty).bind fun _ => .pure ty

/-- What has been declared in a scope is gone when the scope is closed. -/
theorem inScope (h : Paired ρ m outer env env' x x') :
    Paired ρ m outer env env (Check.inScope x) (Check.inScope x') := by
  intro Γ Γs s s' he ht
  have hpush : Twins ρ m [] (Γ :: Γs) s.push s'.push :=
    ⟨congrArg ([] :: ·) ht.frames, congrArg ([] :: ·) ht.renamed, ht.expected, ht.enclosing,
      ht.types, ht.errors⟩
  obtain ⟨hr, ls, -, hafter⟩ := h [] (Γ :: Γs) _ _ he hpush
  exact ⟨hr, [], rfl, congrArg List.tail hafter.frames, congrArg List.tail hafter.renamed,
    hafter.expected, hafter.enclosing, hafter.types, hafter.errors⟩

theorem returning (h : Paired ρ m outer env env' x x') (ty : Ty) :
    Paired ρ m outer env env' (Check.returning ty x) (Check.returning ty x') := by
  intro Γ Γs s s' he ht
  obtain ⟨hr, ls, hls, hafter⟩ := h Γ Γs { s with expected := some ty }
    { s' with expected := some ty } he
    ⟨ht.frames, ht.renamed, rfl, ht.enclosing, ht.types, ht.errors⟩
  exact ⟨hr, ls, hls, hafter.frames, hafter.renamed, ht.expected, hafter.enclosing, hafter.types,
    hafter.errors⟩

theorem inClass (h : Paired ρ m outer env env' x x') (name : String) :
    Paired ρ m outer env env' (Check.inClass name x) (Check.inClass name x') := by
  intro Γ Γs s s' he ht
  obtain ⟨hr, ls, hls, hafter⟩ := h Γ Γs { s with enclosing := some name }
    { s' with enclosing := some name } he
    ⟨ht.frames, ht.renamed, ht.expected, rfl, ht.types, ht.errors⟩
  exact ⟨hr, ls, hls, hafter.frames, hafter.renamed, hafter.expected, ht.enclosing, hafter.types,
    hafter.errors⟩

theorem forM_map {g : α → α} {f f' : α → Check PUnit} :
    ∀ {as : List α}, (∀ a ∈ as, Paired ρ m outer env env (f a) (f' (g a))) →
      Paired ρ m outer env env (as.forM f) ((as.map g).forM f')
  | [], _ => .pure _
  | _ :: _, h =>
    (h _ List.mem_cons_self).bind fun _ => forM_map fun a ha => h a (List.mem_cons_of_mem _ ha)

/-- Where no variable is in scope, it does not matter what else is. -/
theorem elsewhere (h : Paired ρ m outer outer outer x x') (outer' : Env) :
    Paired ρ m outer' outer' outer' x x' := by
  intro Γ Γs s s' he ht
  have hnone : (Γ ++ Γs.flatten).map Local.entry = [] := List.append_left_eq_self.1 he
  obtain ⟨hr, ls, hls, hafter⟩ := h Γ Γs s s' (by rw [hnone]; rfl) ht
  refine ⟨hr, ls, ?_, hafter⟩
  rw [List.append_left_eq_self.1 hls]
  rfl

end Paired

/-! ### What the checks look up -/

/-- The names of both modules say of each of these sites what its environment says. -/
structure CheckContext.Renames (ρ : Renaming) (ss : List Site) (cx : CheckContext) (names : Names) :
    Prop where
  exprs : ∀ s ∈ ss, s.expr ∈ cx.module.exprs
  fits : ∀ s ∈ ss, ρ.Fits s
  binding : ∀ s ∈ ss, cx.names.binding? s.expr.id = s.reference?.map (·.binding)
  renamed : ∀ s ∈ ss, names.binding? s.expr.id = (ρ.site s).reference?.map (·.binding)

/-- What the check of the renamed module looks things up in. -/
def CheckContext.rename (ρ : Renaming) (cx : CheckContext) (names : Names) : CheckContext :=
  ⟨cx.registry, names, cx.module.rename ρ⟩

section

variable {ρ : Renaming} {ss : List Site} {cx : CheckContext} {names : Names}

namespace CheckContext.Renames

/-- An identifier refers to what its environment says, before and after. -/
theorem ident (h : cx.Renames ρ ss names) {node : Node} {name : String} {usage : Usage} {env : Env}
    (hs : ⟨.ident node name, usage, env⟩ ∈ ss) :
    cx.names.binding? node.id = env.lookup name ∧
      names.binding? node.id = (env.lookup name).map ρ.binding := by
  have hb := h.binding _ hs
  have hr := h.renamed _ hs
  have hfits := h.fits _ hs
  have hmap (o : Option Binding) (x : String) :
      (o.map fun b => (⟨x, node.id, node.span, b⟩ : Reference)).map (·.binding) = o := by
    cases o <;> rfl
  refine ⟨hb.trans (hmap _ _), hr.trans ((hmap _ _).trans ?_)⟩
  cases hl : env.lookup name with
  | none => exact (hfits.lookup_none rfl hl).1
  | some b => exact (hfits.lookup_some rfl hl).1

/-- An identifier refers to the same, or to a variable before and after. -/
theorem cases_ident (h : cx.Renames ρ ss names) {node : Node} {name : String} {usage : Usage}
    {env : Env} (hs : (Expr.ident node name).sites env usage ⊆ ss) :
    names.binding? node.id = cx.names.binding? node.id ∨
      (cx.names.binding? node.id = some (.variable ρ.old ρ.span) ∧
        names.binding? node.id = some (.variable ρ.new ρ.span)) := by
  obtain ⟨hb, hr⟩ := h.ident (hs List.mem_cons_self)
  rw [hb, hr]
  cases env.lookup name with
  | none => exact .inl rfl
  | some b =>
    by_cases ht : b = ρ.target
    · exact .inr ⟨congrArg some ht, congrArg some (if_pos ht)⟩
    · exact .inl (congrArg some (if_neg ht))

theorem isBuiltin (h : cx.Renames ρ ss names) : ∀ (e : Expr) {usage : Usage} {env : Env},
    e.sites env usage ⊆ ss → names.isBuiltin (e.rename ρ) = cx.names.isBuiltin e
  | .ident _ _, _, _, hs => by
    simp only [Expr.rename, Names.isBuiltin]
    obtain hb | ⟨hb, hb'⟩ := h.cases_ident hs
    · rw [hb]
    · rw [hb, hb']
  | .member _ object _ _, _, _, hs => h.isBuiltin object (List.cons_subset.1 hs).2
  | .int _ _, _, _, _ | .float _ _, _, _, _ | .string _ _, _, _, _ | .bool _ _, _, _, _
  | .interpolated _ _, _, _, _ | .this _, _, _, _ | .noneLit _, _, _, _ | .someOf _ _, _, _, _
  | .binary _ _ _ _, _, _, _ | .unary _ _ _, _, _, _ | .assign _ _ _, _, _, _ | .call _ _ _, _, _, _
  | .index _ _ _, _, _, _ | .new _ _ _ _, _, _, _ | .array _ _, _, _, _
  | .lambda _ _ _ _, _, _, _ => rfl

theorem aliased? (h : cx.Renames ρ ss names) (e : Expr) {usage : Usage} {env : Env}
    (hs : e.sites env usage ⊆ ss) : names.aliased? (e.rename ρ) = cx.names.aliased? e := by
  cases e with
  | ident node name =>
    simp only [Expr.rename, Names.aliased?]
    obtain hb | ⟨hb, hb'⟩ := h.cases_ident hs
    · rw [hb]
    · rw [hb, hb']
  | _ => rfl

theorem intrinsic? (h : cx.Renames ρ ss names) (e : Expr) {usage : Usage} {env : Env}
    (hs : e.sites env usage ⊆ ss) : names.intrinsic? (e.rename ρ) = cx.names.intrinsic? e := by
  cases e with
  | ident node name =>
    simp only [Expr.rename, Names.intrinsic?]
    obtain hb | ⟨hb, hb'⟩ := h.cases_ident hs
    · rw [hb]
    · rw [hb, hb']
  | _ => rfl

theorem isClass (h : cx.Renames ρ ss names) (e : Expr) {usage : Usage} {env : Env}
    (hs : e.sites env usage ⊆ ss) :
    names.isClass cx.registry (e.rename ρ) = cx.names.isClass cx.registry e := by
  cases e with
  | ident node name =>
    simp only [Expr.rename, Names.isClass]
    obtain hb | ⟨hb, hb'⟩ := h.cases_ident hs
    · rw [hb]
    · rw [hb, hb']
  | member node object name nameSpan =>
    simp only [Expr.rename, Names.isClass, h.aliased? object (List.cons_subset.1 hs).2]
  | _ => rfl

/-- An identifier has the same type, also if it is a variable that is found by its new name. -/
theorem identTy (h : cx.Renames ρ ss names) {node : Node} {name : String} {usage : Usage}
    {env outer : Env} (hs : (Expr.ident node name).sites env usage ⊆ ss) :
    Paired ρ cx.module outer env env (cx.identTy node.id name)
      ((cx.rename ρ names).identTy node.id (ρ.used node.id name)) := by
  have hsite := hs List.mem_cons_self
  obtain ⟨hb, hb'⟩ := h.ident hsite
  have hfits := h.fits _ hsite
  unfold CheckContext.identTy CheckContext.rename
  dsimp only
  rw [hb, hb']
  cases hl : env.lookup name with
  | none => exact .pure _
  | some b =>
    -- A variable is looked up by name, and the name has changed if the variable has been renamed.
    have hlocal : Paired ρ cx.module outer env env (Check.localTy name)
        (Check.localTy (ρ.used node.id name)) := by
      intro Γ Γs s s' he ht
      refine ⟨?_, [], rfl, ht⟩
      have hslots := Renaming.lookup_slots (Γ ++ Γs.flatten) outer (he ▸ hfits.fresh)
        (he ▸ hfits.named) (he ▸ hl)
      show (s'.locals.lookup _).getD _ = (s.locals.lookup _).getD _
      rw [ScopeStack.lookup_eq_flatten, ScopeStack.lookup_eq_flatten, ht.frames, ht.renamed,
        (hfits.lookup_some rfl hl).2, ← List.map_flatten, ← List.map_flatten, List.flatten_cons,
        hslots]
    cases b with
    | «variable» x span =>
      obtain ⟨x', span', hv⟩ : ∃ x' span', ρ.binding (.variable x span) = .variable x' span' := by
        unfold Renaming.binding
        split <;> exact ⟨_, _, rfl⟩
      rw [Option.map_some, hv]
      exact hlocal
    | _ => exact .pure _

end CheckContext.Renames

/-! ### The check of a piece -/

@[simp] theorem Expr.typed_rename (ρ : Renaming) (e : Expr) (ty : Ty) :
    (e.rename ρ).typed ty = e.typed ty := by
  rw [typed, node_rename]
  rfl

theorem expectArity_paired {outer env : Env} {node : Node} {callee : Expr} {args : List Expr}
    (hc : .call node callee args ∈ cx.module.exprs) (params : Nat) :
    Paired ρ cx.module outer env env (expectArity callee params args.length node.span)
      (expectArity (callee.rename ρ) params args.length node.span) := by
  unfold expectArity
  split
  · exact .pure ()
  · intro Γ Γs s s' _ ht
    refine ⟨rfl, [], rfl, ht.frames, ht.renamed, ht.expected, ht.enclosing, ht.types, ?_⟩
    rw [after_report, after_report, Array.toList_push, Array.toList_push]
    refine List.rel_append ht.errors (.cons (.inr ?_) .nil)
    exact ⟨node, callee, args, params, hc, rfl, rfl⟩

theorem appliedTy_paired {outer env : Env} {node : Node} {callee : Expr} {args : List Expr}
    (hc : .call node callee args ∈ cx.module.exprs)
    (ha : ∀ params, Paired ρ cx.module outer env env (checkArgs cx params args)
      (checkArgs (cx.rename ρ names) params (renameExprs ρ args))) (calleeTy : Ty) :
    Paired ρ cx.module outer env env (cx.appliedTy callee args node.span calleeTy)
      ((cx.rename ρ names).appliedTy (callee.rename ρ) (renameExprs ρ args) node.span
        calleeTy) := by
  unfold CheckContext.appliedTy
  split
  · rw [length_renameExprs]
    exact (expectArity_paired hc _).bind fun _ => (ha _).bind fun _ => .pure _
  · exact (ha []).bind fun _ => .pure _
  · rw [Expr.span_rename]
    exact (ha []).bind fun _ => (Paired.blind (.report _ _)).bind fun _ => .pure _

/-- What is returned fits the innermost function, if there is one. -/
theorem returned_paired {m : Module} {outer env : Env} (ty : Ty) (span : Span) :
    Paired ρ m outer env env
      (do if let some expected := (← get).expected then
            Check.expectAssignable ty expected span)
      (do if let some expected := (← get).expected then
            Check.expectAssignable ty expected span) := by
  refine .get fun s s' he _ => ?_
  rw [he]
  cases s.expected with
  | none => exact .pure ()
  | some expected => exact .blind (.expectAssignable _ _ _)

/-- The pattern of an arm declares the same under its new name. -/
theorem declarePattern_paired {m : Module} {outer env : Env} (scrutinee : Ty) (pattern : ArmPattern)
    (span : Span) :
    Paired ρ m outer env (pattern.declares ++ env) (Check.declarePattern scrutinee pattern span)
      (Check.declarePattern scrutinee (pattern.rename ρ) span) := by
  cases pattern with
  | wildcard => exact .pure ()
  | none => exact .blind (.declareNothing scrutinee span)
  | some name nameSpan =>
    rw [ArmPattern.rename, declarePattern_some, declarePattern_some]
    exact (Paired.blind (.declareNothing scrutinee span)).bind fun _ => .declare name nameSpan _

theorem declareParams_paired (cx : CheckContext) (names : Names) {outer : Env} :
    ∀ (params : List Param) {env : Env},
    Paired ρ cx.module outer env (paramEnv params ++ env) (cx.declareParams params)
      ((cx.rename ρ names).declareParams (params.map (·.rename ρ)))
  | [], _ => .pure _
  | p :: params, env => by
    have hp : Paired ρ cx.module outer env ((p.name, .variable p.name p.span) :: env) (do
          cx.checkAnnotation p.ty p.span
          Check.declare p.name p.ty)
        (do
          CheckContext.checkAnnotation (cx.rename ρ names) p.ty p.span
          Check.declare (ρ.declared p.name p.span) p.ty) :=
      (Paired.blind (.annotated cx p.ty p.span)).bind fun _ => .declare p.name p.span p.ty
    have henv : paramEnv (p :: params) ++ env =
        paramEnv params ++ (p.name, .variable p.name p.span) :: env := by
      simp [paramEnv]
    rw [henv]
    exact hp.bind fun _ => declareParams_paired cx names params

mutual

/-- The check of an expression finds the same after the renaming. -/
theorem checkExpr_paired (h : cx.Renames ρ ss names) {outer : Env} : ∀ (e : Expr) {usage : Usage}
    {env : Env}, e.sites env usage ⊆ ss →
    Paired ρ cx.module outer env env (checkExpr cx e) (checkExpr (cx.rename ρ names) (e.rename ρ))
  | .int node _, _, _, _ | .float node _, _, _, _ | .string node _, _, _, _ | .bool node _, _, _, _
  | .noneLit node, _, _, _ => (Paired.record node _).bind fun _ => .pure _
  | .this node, _, _, _ => .get fun s s' _ he => by
    rw [he]
    exact (Paired.record node _).bind fun _ => .pure _
  | .ident node name, _, _, hs => (h.identTy hs).recorded node
  | .interpolated node parts, _, _, hs =>
    (checkParts_paired h parts (List.cons_subset.1 hs).2).bind fun _ =>
      (Paired.record node _).bind fun _ => .pure _
  | .someOf node inner, _, _, hs =>
    (checkExpr_paired h inner (List.cons_subset.1 hs).2).bind fun _ =>
      (Paired.record node _).bind fun _ => .pure _
  | .binary node op left right, _, _, hs => by
    obtain ⟨hl, hr⟩ := List.append_subset.1 (List.cons_subset.1 hs).2
    rw [Expr.rename, checkExpr, checkExpr]
    refine (checkExpr_paired h left hl).bind fun leftTy => ?_
    refine (checkExpr_paired h right hr).bind fun rightTy => ?_
    rw [Expr.typed_rename, Expr.typed_rename]
    exact (Paired.blind (.binaryTy op _ _ node.span)).recorded node
  | .unary node op operand, _, _, hs => by
    rw [Expr.rename, checkExpr, checkExpr]
    refine (checkExpr_paired h operand (List.cons_subset.1 hs).2).bind fun operandTy => ?_
    rw [Expr.typed_rename]
    exact (Paired.blind (.unaryTy op _)).recorded node
  | .assign node target value, _, _, hs => by
    obtain ⟨ht, hv⟩ := List.append_subset.1 (List.cons_subset.1 hs).2
    rw [Expr.rename, checkExpr, checkExpr, Expr.span_rename]
    refine (checkExpr_paired h target ht).bind fun targetTy => ?_
    refine (checkExpr_paired h value hv).bind fun valueTy => ?_
    refine (Paired.blind (.expectAssignable _ _ _)).bind fun _ => ?_
    exact (Paired.record node _).bind fun _ => .pure _
  | .call node callee args, usage, env, hs => by
    have hcall := h.exprs _ (hs List.mem_cons_self)
    obtain ⟨hc, ha⟩ := List.append_subset.1 (List.cons_subset.1 hs).2
    have hi := h.intrinsic? callee hc
    rw [Expr.rename]
    cases hn : cx.names.intrinsic? callee with
    | some name =>
      rw [hn] at hi
      rw [checkExpr_call_intrinsic cx hn, checkExpr_call_intrinsic _ hi, Expr.node_rename]
      refine (Paired.record callee.node _).bind fun _ => ?_
      refine (checkArgs_paired h args [] ha).bind fun _ => ?_
      exact (Paired.record node _).bind fun _ => .pure _
    | none =>
      rw [hn] at hi
      rw [checkExpr_call cx hn, checkExpr_call _ hi]
      refine (checkExpr_paired h callee hc).bind fun calleeTy => ?_
      exact (appliedTy_paired hcall (fun params => checkArgs_paired h args params ha)
        calleeTy).recorded node
  | .member node object name nameSpan, _, _, hs => by
    have ho := (List.cons_subset.1 hs).2
    have hb' := h.isBuiltin object ho
    have ha' := h.aliased? object ho
    rw [Expr.rename]
    cases hb : cx.names.isBuiltin object with
    | true =>
      rw [hb] at hb'
      rw [checkExpr_member_builtin cx hb, checkExpr_member_builtin _ hb', Expr.node_rename]
      refine (Paired.record object.node _).bind fun _ => ?_
      exact (Paired.record node _).bind fun _ => .pure _
    | false =>
      rw [hb] at hb'
      cases ha : cx.names.aliased? object with
      | some path =>
        rw [ha] at ha'
        rw [checkExpr_member_aliased cx hb ha, checkExpr_member_aliased _ hb' ha', Expr.node_rename]
        refine (Paired.record object.node _).bind fun _ => ?_
        exact (Paired.blind (.moduleMemberTy cx path name nameSpan)).recorded node
      | none =>
        rw [ha] at ha'
        rw [checkExpr_member_value cx hb ha, checkExpr_member_value _ hb' ha']
        refine (checkExpr_paired h object ho).bind fun objectTy => ?_
        have hclass := h.isClass object ho
        show Paired _ _ _ _ _ _ (cx.valueMemberTy objectTy name
          (names.isClass cx.registry (object.rename ρ)) nameSpan >>= _)
        rw [hclass]
        exact (Paired.blind (.valueMemberTy cx objectTy name _ nameSpan)).recorded node
  | .index node object place, _, _, hs => by
    obtain ⟨ho, hp⟩ := List.append_subset.1 (List.cons_subset.1 hs).2
    rw [Expr.rename, checkExpr, checkExpr, Expr.span_rename]
    refine (checkExpr_paired h object ho).bind fun objectTy => ?_
    refine (checkExpr_paired h place hp).bind fun indexTy => ?_
    refine (Paired.blind (.expectAssignable _ _ _)).bind fun _ => ?_
    rw [Expr.typed_rename]
    exact (Paired.blind (.indexedTy _)).recorded node
  | .new node className classSpan args, _, _, hs =>
    (checkArgs_paired h args [] (List.cons_subset.1 hs).2).bind fun _ =>
      (Paired.blind (.instanceTy cx className classSpan)).recorded node
  | .array node items, _, _, hs =>
    (checkItems_paired h items .unknown (List.cons_subset.1 hs).2).bind fun _ =>
      (Paired.record node _).bind fun _ => .pure _
  | .lambda node params ret body, _, env, hs => by
    have htys : (params.map (·.rename ρ)).map (·.ty) = params.map (·.ty) := by
      rw [List.map_map]
      rfl
    rw [Expr.rename, checkExpr, checkExpr, htys]
    have hbody : Paired ρ cx.module outer env (paramEnv params ++ env) _ _ :=
      (declareParams_paired cx names params).bind fun _ =>
        checkBlock_paired h body (List.cons_subset.1 hs).2
    refine (hbody.inScope.returning ret).bind fun _ => ?_
    exact (Paired.record node _).bind fun _ => .pure _

theorem checkArgs_paired (h : cx.Renames ρ ss names) {outer : Env} : ∀ (args : List Expr)
    (params : List Ty) {env : Env}, exprsSites env args ⊆ ss →
    Paired ρ cx.module outer env env (checkArgs cx params args)
      (checkArgs (cx.rename ρ names) params (renameExprs ρ args))
  | [], [], _, _ | [], _ :: _, _, _ => .pure ()
  | arg :: args, [], _, hs =>
    (checkExpr_paired h arg (List.append_subset.1 hs).1).discard.bind fun _ =>
      checkArgs_paired h args [] (List.append_subset.1 hs).2
  | arg :: args, param :: params, _, hs => by
    rw [renameExprs, checkArgs, checkArgs, Expr.span_rename]
    refine (checkExpr_paired h arg (List.append_subset.1 hs).1).bind fun ty => ?_
    exact (Paired.blind (.expectAssignable _ _ _)).bind fun _ =>
      checkArgs_paired h args params (List.append_subset.1 hs).2

theorem checkItems_paired (h : cx.Renames ρ ss names) {outer : Env} : ∀ (items : List Expr)
    (common : Ty) {env : Env}, exprsSites env items ⊆ ss →
    Paired ρ cx.module outer env env (checkItems cx common items)
      (checkItems (cx.rename ρ names) common (renameExprs ρ items))
  | [], common, _, _ => .pure common
  | item :: items, common, _, hs => by
    rw [renameExprs, checkItems, checkItems]
    refine (checkExpr_paired h item (List.append_subset.1 hs).1).bind fun ty => ?_
    rw [Expr.typed_rename]
    exact (Paired.blind (.joinElement common _)).bind fun common =>
      checkItems_paired h items common (List.append_subset.1 hs).2

theorem checkParts_paired (h : cx.Renames ρ ss names) {outer : Env} : ∀ (parts : List Part)
    {env : Env}, partsSites env parts ⊆ ss →
    Paired ρ cx.module outer env env (checkParts cx parts)
      (checkParts (cx.rename ρ names) (renameParts ρ parts))
  | [], _, _ => .pure ()
  | .text _ :: parts, _, hs => checkParts_paired h parts hs
  | .hole e :: parts, _, hs =>
    (checkExpr_paired h e (List.append_subset.1 hs).1).discard.bind fun _ =>
      checkParts_paired h parts (List.append_subset.1 hs).2

/-- The check of a statement finds and declares the same after the renaming. -/
theorem checkStmt_paired (h : cx.Renames ρ ss names) {outer : Env} : ∀ (stmt : Stmt) {env : Env},
    stmt.sites env ⊆ ss →
    Paired ρ cx.module outer env (stmt.declares ++ env) (checkStmt cx stmt)
      (checkStmt (cx.rename ρ names) (stmt.rename ρ))
  | .letStmt name _ none value nameSpan _, _, hs =>
    (checkExpr_paired h value hs).bind fun _ => .declare name nameSpan _
  | .letStmt name _ (some ty) value nameSpan _, _, hs => by
    rw [Stmt.rename, checkStmt, checkStmt, Expr.span_rename]
    refine (checkExpr_paired h value hs).bind fun valueTy => ?_
    refine (Paired.blind (.annotated cx ty nameSpan)).bind fun _ => ?_
    exact (Paired.blind (.expectAssignable _ _ _)).bind fun _ => .declare name nameSpan ty
  | .returnStmt none span, _, _ => returned_paired .void span
  | .returnStmt (some value) _, _, hs => by
    rw [Stmt.rename, checkStmt, checkStmt, Expr.span_rename]
    exact (checkExpr_paired h value hs).bind fun ty => returned_paired ty value.span
  | .ifStmt condition body none _, _, hs | .whileStmt condition body _, _, hs => by
    obtain ⟨hc, hb⟩ := List.append_subset.1 hs
    rw [Stmt.rename, checkStmt, checkStmt, Expr.span_rename]
    refine (checkExpr_paired h condition hc).bind fun ty => ?_
    exact (Paired.blind (.expectAssignable _ _ _)).bind fun _ => checkBlock_paired h body hb
  | .ifStmt condition body (some otherwise) _, _, hs => by
    obtain ⟨hs, ho⟩ := List.append_subset.1 hs
    obtain ⟨hc, hb⟩ := List.append_subset.1 hs
    rw [Stmt.rename, checkStmt, checkStmt, Expr.span_rename]
    refine (checkExpr_paired h condition hc).bind fun ty => ?_
    refine (Paired.blind (.expectAssignable _ _ _)).bind fun _ => ?_
    exact (checkBlock_paired h body hb).bind fun _ => checkStmt_paired h otherwise ho
  | .forStmt name nameSpan iterable body _, _, hs => by
    obtain ⟨hi, hb⟩ := List.append_subset.1 hs
    rw [Stmt.rename, checkStmt, checkStmt]
    refine (checkExpr_paired h iterable hi).bind fun ty => ?_
    rw [Expr.typed_rename]
    refine (Paired.blind (.elementTy _)).bind fun element => ?_
    exact ((Paired.declare name nameSpan element).bind fun _ => checkBlock_paired h body hb).inScope
  | .matchStmt scrutinee arms _, _, hs =>
    (checkExpr_paired h scrutinee (List.append_subset.1 hs).1).bind fun ty =>
      checkArms_paired h arms ty (List.append_subset.1 hs).2
  | .block body, _, hs => checkBlock_paired h body hs
  | .expr value, _, hs => (checkExpr_paired h value hs).discard

theorem checkStmts_paired (h : cx.Renames ρ ss names) {outer : Env} : ∀ (stmts : List Stmt)
    {env : Env}, stmtsSites env stmts ⊆ ss → ∃ env',
    Paired ρ cx.module outer env env' (checkStmts cx stmts)
      (checkStmts (cx.rename ρ names) (renameStmts ρ stmts))
  | [], env, _ => ⟨env, .pure ()⟩
  | stmt :: stmts, _, hs => by
    obtain ⟨hs, hss⟩ := List.append_subset.1 hs
    obtain ⟨env', hrest⟩ := checkStmts_paired h stmts hss
    exact ⟨env', (checkStmt_paired h stmt hs).bind fun _ => hrest⟩

theorem checkBlock_paired (h : cx.Renames ρ ss names) {outer : Env} : ∀ (body : Block) {env : Env},
    body.sites env ⊆ ss →
    Paired ρ cx.module outer env env (checkBlock cx body)
      (checkBlock (cx.rename ρ names) (body.rename ρ))
  | ⟨stmts, _⟩, _, hs => by
    obtain ⟨env', hstmts⟩ := checkStmts_paired h stmts hs
    exact hstmts.inScope

theorem checkArms_paired (h : cx.Renames ρ ss names) {outer : Env} : ∀ (arms : List Arm)
    (scrutinee : Ty) {env : Env}, armsSites env arms ⊆ ss →
    Paired ρ cx.module outer env env (checkArms cx scrutinee arms)
      (checkArms (cx.rename ρ names) scrutinee (renameArms ρ arms))
  | [], _, _, _ => .pure ()
  | ⟨pattern, body, span⟩ :: arms, scrutinee, env, hs => by
    obtain ⟨hb, ha⟩ := List.append_subset.1 hs
    have hbody : Paired ρ cx.module outer env (pattern.declares ++ env) _ _ :=
      (declarePattern_paired scrutinee pattern span).bind fun _ => checkBlock_paired h body hb
    exact hbody.inScope.bind fun _ => checkArms_paired h arms scrutinee ha

end

/-! ### The check of a module -/

theorem checkFunction_paired (h : cx.Renames ρ ss names) {outer env : Env} {f : FunctionDecl}
    (hs : f.sites env ⊆ ss) :
    Paired ρ cx.module outer env env (checkFunction cx f)
      (checkFunction (cx.rename ρ names) (f.rename ρ)) := by
  have hbody : Paired ρ cx.module outer env (paramEnv f.params ++ env) _ _ :=
    (declareParams_paired cx names f.params).bind fun _ => checkBlock_paired h f.body hs
  have hret : Paired ρ cx.module outer env env _ _ := .blind (.annotated cx f.ret f.nameSpan)
  exact (hret.bind fun _ => hbody.inScope).returning f.ret

theorem checkField_paired (h : cx.Renames ρ ss names) {outer env : Env} {f : FieldDecl}
    (hs : ∀ e, f.initial = some e → e.sites env .value ⊆ ss) :
    Paired ρ cx.module outer env env (checkField cx f)
      (checkField (cx.rename ρ names) (f.rename ρ)) := by
  refine (Paired.blind (.annotated cx f.ty f.span)).bind fun _ => ?_
  rw [FieldDecl.rename]
  cases hi : f.initial with
  | none => exact .pure ()
  | some value =>
    dsimp only [Option.map_some]
    rw [Expr.span_rename]
    exact (checkExpr_paired h value (hs value hi)).bind fun ty =>
      .blind (.expectAssignable _ _ _)

theorem sites_subset_exprsSites {env : Env} {e : Expr} : ∀ {es : List Expr}, e ∈ es →
    e.sites env .value ⊆ exprsSites env es
  | _ :: _, .head _ => List.subset_append_left _ _
  | _ :: _, .tail _ h =>
    List.Subset.trans (sites_subset_exprsSites h) (List.subset_append_right _ _)

/-- In a class, what else is in scope are its members and what is in sight at the top. -/
theorem checkClass_paired (h : cx.Renames ρ ss names) {root : Env} {c : ClassDecl} {module : String}
    {idx : Nat} (hs : c.sites root module idx ⊆ ss) :
    Paired ρ cx.module root root root (checkClass cx c)
      (checkClass (cx.rename ρ names) (c.rename ρ)) := by
  obtain ⟨hi, hm⟩ := List.append_subset.1 hs
  have hin : Paired ρ cx.module (c.env module idx ++ root) (c.env module idx ++ root)
      (c.env module idx ++ root) (checkClass cx c)
      (checkClass (cx.rename ρ names) (c.rename ρ)) := by
    refine Paired.inClass ?_ c.name
    refine (Paired.forM_map fun f hf => checkField_paired h fun e he => ?_).bind fun _ =>
      Paired.forM_map fun f hf => checkFunction_paired h fun s hsf =>
        hm (List.mem_flatMap.2 ⟨f, hf, hsf⟩)
    exact List.Subset.trans (sites_subset_exprsSites (List.mem_filterMap.2 ⟨f, hf, he⟩)) hi
  exact hin.elsewhere root

/-- Checks of a module before and after a renaming find the same. -/
theorem checkModule_paired (cx : CheckContext)
    (h : cx.Renames ρ (cx.registry.sites cx.module) names) :
    ((checkModule (cx.rename ρ names)).after {}).types = ((checkModule cx).after {}).types ∧
      List.Forall₂ (ρ.SameFault cx.module) ((checkModule cx).after {}).errors.toList
        ((checkModule (cx.rename ρ names)).after {}).errors.toList := by
  have hclass : ∀ c ∈ cx.module.decls.classes, Paired ρ cx.module (cx.registry.rootEnv cx.module)
      (cx.registry.rootEnv cx.module) (cx.registry.rootEnv cx.module) (checkClass cx c)
      (checkClass (cx.rename ρ names) (c.rename ρ)) := by
    intro c hc
    obtain ⟨idx, hidx⟩ := List.mem_iff_getElem?.1 hc
    have hat : (c, idx) ∈ cx.module.decls.classes.zipIdx :=
      List.mk_mem_zipIdx_iff_getElem?.2 hidx
    have hs : c.sites (cx.registry.rootEnv cx.module) cx.module.path idx ⊆
        cx.registry.sites cx.module :=
      fun s hs => List.mem_append_left _ (List.mem_flatMap.2 ⟨(c, idx), hat, hs⟩)
    exact checkClass_paired h hs
  have hfunction : ∀ f ∈ cx.module.decls.functions, Paired ρ cx.module
      (cx.registry.rootEnv cx.module) (cx.registry.rootEnv cx.module)
      (cx.registry.rootEnv cx.module) (checkFunction cx f)
      (checkFunction (cx.rename ρ names) (f.rename ρ)) :=
    fun f hf => checkFunction_paired h fun s hs =>
      List.mem_append_right _ (List.mem_flatMap.2 ⟨f, hf, hs⟩)
  have hbody := (Paired.forM_map hclass).bind fun _ => Paired.forM_map hfunction
  have hstart : Twins ρ cx.module [] [] ({} : Checker).push ({} : Checker).push :=
    ⟨rfl, rfl, rfl, rfl, rfl, .nil⟩
  obtain ⟨-, ls, -, hdone⟩ := hbody [] [] _ _ rfl hstart
  exact ⟨hdone.types, hdone.errors⟩

end

namespace Registry

variable {r : Registry} {path : String} {m : Module}

/-- Expressions keep their numbers. -/
theorem numbered_rename (hn : m.Numbered) (ρ : Renaming) : (m.rename ρ).Numbered := by
  have hp := (sites_perm_exprs ((Registry.empty).rename m.path ρ) (m.rename ρ)).map Expr.id
  have hids (s : Site) : (ρ.site s).expr.id = s.expr.id := s.expr.id_rename ρ
  rw [sites_rename, List.map_map, List.map_map] at hp
  refine hp.nodup_iff.1 ?_
  simpa only [Function.comp_def, hids] using sites_nodup Registry.empty hn

/-- The names of the renamed module say of an expression what its site says. -/
theorem binding?_rename (hm : r.find? path = some m) (hn : m.Numbered) (ρ : Renaming) {s : Site}
    (hs : s ∈ r.sites m) : ((r.rename path ρ).names path).binding? s.expr.id =
      (ρ.site s).reference?.map (·.binding) := by
  have hm' : (r.rename path ρ).find? path = some (m.rename ρ) := by
    rw [find?_rename, if_pos rfl, hm]
    rfl
  have hs' : ρ.site s ∈ (r.rename path ρ).sites (m.rename ρ) := by
    rw [sites_rename]
    exact List.mem_map_of_mem hs
  rw [← binding?_of_mem_sites hm' (numbered_rename hn ρ) hs', Renaming.site, Expr.id_rename]

/-- What is looked up apart from names is the same in the registry with the renamed module. -/
theorem mirrors_rename (r : Registry) (path : String) (m : Module) (ρ : Renaming) :
    (r.checkContext path m).Mirrors id false ⟨r.rename path ρ, r.names path, m⟩ := by
  refine ⟨r.alike_rename ρ path, rfl, ?_, fun _ => rfl, (Bool.or_false _).symm⟩
  show ((r.rename path ρ).find? m.path).map _ = (r.find? m.path).map _
  rw [find?_rename]
  split
  · rw [Option.map_map]
    rfl
  · rfl

theorem mirror_id (s : Checker) : s.mirror id false = s := by
  have he : s.errors.filter (·.remains false) = s.errors := by
    simp [Diagnostic.remains_false]
  have ht : s.types.map (·.renumber id) = s.types := by
    rw [show (fun t : TypedNode => t.renumber id) = id from rfl, Array.map_id]
  rw [Checker.mirror, he, ht]

/-- The old names and the new names lead to the same. -/
theorem renames (hm : r.find? path = some m) (hn : m.Numbered) {ρ : Renaming}
    (hf : ∀ s ∈ r.sites m, ρ.Fits s) :
    (⟨r.rename path ρ, r.names path, m⟩ : CheckContext).Renames ρ ((r.rename path ρ).sites m)
      ((r.rename path ρ).names path) := by
  rw [sites_eq (r.alike_rename ρ path) rfl rfl rfl rfl]
  exact ⟨fun _ hs => (sites_perm_exprs r m).mem_iff.1 (List.mem_map_of_mem hs), hf,
    fun _ hs => binding?_of_mem_sites hm hn hs, fun _ hs => binding?_rename hm hn ρ hs⟩

/-- **Types stay where identifiers lead to the same variables.** -/
theorem types_rename (hm : r.find? path = some m) (hn : m.Numbered) {ρ : Renaming}
    (hf : ∀ s ∈ r.sites m, ρ.Fits s) :
    ((r.rename path ρ).check ((r.rename path ρ).names path)).nodes =
        (r.check (r.names path)).nodes ∧
      List.Forall₂ (ρ.SameFault m) (r.check (r.names path)).errors
        ((r.rename path ρ).check ((r.rename path ρ).names path)).errors := by
  have hm' : (r.rename path ρ).find? path = some (m.rename ρ) := by
    rw [find?_rename, if_pos rfl, hm]
    rfl
  -- In between stands a check of the old module in the new registry.
  have hmirror := (checkModule_mirrors (mirrors_rename r path m ρ)
    (by simp [ClassDecl.renumber_id, checkContext])
    (by simp [FunctionDecl.renumber_id, checkContext])).after {}
  rw [mirror_id, mirror_id] at hmirror
  have hpaired := checkModule_paired ⟨r.rename path ρ, r.names path, m⟩ (renames hm hn hf)
  rw [hmirror] at hpaired
  rw [check_eq hm, check_eq hm']
  exact ⟨congrArg Array.toList hpaired.1, hpaired.2⟩

/-- **A variable can be renamed where it is declared and where references to it are found.** If the
new name is not in use, then
- the same faults of names are met, and the references are those from before up to the new name,
  except for new instances of a class that the variable has hidden by its name: they refer to
  nothing before, and to a class afterwards;
- all expressions have the same types, and the same faults of types are met, up to the name of what
  is called with a wrong number of arguments.

The variable is told by the span of its declaration, as it is kept in files of less than 2^32
bytes. -/
theorem rename_variable (hm : r.find? path = some m) (hn : m.Numbered) (x : String) {y : String}
    (hy : r.Unused m y) (span : Span) :
    let ρ := (r.names path).renaming x y span
    let r' := r.rename path ρ
    ((r'.names path).errors.toList = (r.names path).errors.toList ∧
      ((r'.names path).references.toList.filter fun ref =>
          decide (ref.node ∉ r.hidden m x span)) =
        (r.names path).references.toList.map ρ.reference ∧
      ∀ ref ∈ (r'.names path).references.toList, ref.node ∈ r.hidden m x span →
        ref.name = x ∧ ∃ module idx, ref.binding = .classAt module idx) ∧
    (r'.check (r'.names path)).nodes = (r.check (r.names path)).nodes ∧
    List.Forall₂ (ρ.SameFault m) (r.check (r.names path)).errors
      (r'.check (r'.names path)).errors :=
  ⟨names_rename hm hn x hy span, types_rename hm hn fun _ hs => fits hm hn x hy span hs⟩

end Registry

/-- A variable has the name of a class, and a new instance of the class is made. -/
def hiddenClass : Compilation :=
  ({} : Compilation).add "a.mg" "class C \x7b \x7d fn f() \x7b let C = 1; new C(); C; \x7d"
    (.root "app")

/-- The variable is called `y`. -/
def uncovering : Renaming :=
  (hiddenClass.check.2.registry.names "a").renaming "C" "y" ⟨"a.mg", 25, 26⟩

theorem hiddenClass_run :
    (hiddenClass.check.2.registry.find? "a").any
        (fun m => m.Numbered ∧ hiddenClass.check.2.registry.Unused m "y") ∧
      (hiddenClass.check.2.registry.names "a").references =
        #[⟨"C", 2, ⟨"a.mg", 41, 42⟩, .variable "C" ⟨"a.mg", 25, 26⟩⟩] ∧
      ((hiddenClass.check.2.registry.rename "a" uncovering).names "a").references =
        #[⟨"C", 1, ⟨"a.mg", 36, 37⟩, .classAt "a" 0⟩,
          ⟨"y", 2, ⟨"a.mg", 41, 42⟩, .variable "y" ⟨"a.mg", 25, 26⟩⟩] ∧
      (hiddenClass.check.2.registry.check (hiddenClass.check.2.registry.names "a")).nodes.map
        (·.ty) = [.int, .named "C", .int] := by
  decide +kernel

/-- The types of the three expressions stay, whatever the variable is called. -/
theorem rename_variable_hiddenClass :
    ∃ m, hiddenClass.check.2.registry.find? "a" = some m ∧ m.Numbered ∧
      hiddenClass.check.2.registry.Unused m "y" ∧
      ((hiddenClass.check.2.registry.rename "a" uncovering).check
          ((hiddenClass.check.2.registry.rename "a" uncovering).names "a")).nodes.map (·.ty) =
        [.int, .named "C", .int] := by
  obtain ⟨hany, -, -, htypes⟩ := hiddenClass_run
  obtain ⟨m, hm, hm'⟩ := (Option.any_eq_true _ _).1 hany
  obtain ⟨hn, hy⟩ := of_decide_eq_true hm'
  obtain ⟨-, hnodes, -⟩ := Registry.rename_variable hm hn "C" hy ⟨"a.mg", 25, 26⟩
  exact ⟨m, hm, hn, hy, (congrArg (List.map (·.ty)) hnodes).trans htypes⟩

/-- References need not stay: the variable hides the class from the new instance, and once it has
another name, the new instance refers to the class. -/
theorem reference_uncovered :
    (∃ m, hiddenClass.check.2.registry.find? "a" = some m ∧
      hiddenClass.check.2.registry.Unused m "y") ∧
      ((hiddenClass.check.2.registry.rename "a" uncovering).names "a").references.toList ≠
        (hiddenClass.check.2.registry.names "a").references.toList.map uncovering.reference := by
  obtain ⟨hany, hbefore, hafter, -⟩ := hiddenClass_run
  obtain ⟨m, hm, hm'⟩ := (Option.any_eq_true _ _).1 hany
  refine ⟨⟨m, hm, (of_decide_eq_true hm').2⟩, ?_⟩
  rw [hbefore, hafter]
  simp

end MgLang
