import MgLang.Proofs.Within
import MgLang.Scope.Names
/-!
# Lexical scoping

What every name in a module refers to, said without scopes that open and close: an environment is
handed down the tree, and each construct extends it for the parts that can see what the construct
declares. A `Site` is an expression with the environment where it stands.

The main statement is `names_eq_lexical`: the walk over the scopes of a module finds, for every
expression in it, what the environment there says, and nothing else. The walk keeps its open scopes
as they were, up to what a `let` adds to the innermost one (`bindExpr_walked`, `bindStmt_walked`).
-/

namespace MgLang

/-- What the names in sight refer to, the innermost declaration first. -/
abbrev Env := List (String × Binding)

/-- An expression where it stands. -/
structure Site where
  expr : Expr
  /-- What the expression is to the one around it. -/
  usage : Usage
  env : Env

/-- What parameters declare. The last one of a name counts. -/
def paramEnv (params : List Param) : Env :=
  (params.map fun p => (p.name, .variable p.name p.span)).reverse

/-- What a statement declares for those after it in its block. -/
def Stmt.declares : Stmt → Env
  | .letStmt name _ _ _ nameSpan _ => [(name, .variable name nameSpan)]
  -- What stands behind `else` is a block or a branch in every text that can be read.
  | .ifStmt _ _ (some otherwise) _ => otherwise.declares
  | _ => []

/-- What the pattern of an arm declares for the arm. -/
def ArmPattern.declares : ArmPattern → Env
  | .some name span => [(name, .variable name span)]
  | .none | .wildcard => []

mutual

/-- The expressions within an expression, each where it stands. -/
def Expr.sites (env : Env) (usage : Usage) (e : Expr) : List Site :=
  ⟨e, usage, env⟩ ::
    match e with
    | .int _ _ | .float _ _ | .string _ _ | .bool _ _ | .ident _ _ | .this _ | .noneLit _ => []
    | .interpolated _ parts => partsSites env parts
    | .someOf _ inner => inner.sites env .value
    | .binary _ _ left right => left.sites env .value ++ right.sites env .value
    | .unary _ _ operand => operand.sites env .value
    | .assign _ target value => target.sites env .value ++ value.sites env .value
    | .call _ callee args => callee.sites env .callee ++ exprsSites env args
    | .member _ object _ _ => object.sites env .receiver
    | .index _ object index => object.sites env .value ++ index.sites env .value
    | .new _ _ _ args => exprsSites env args
    | .array _ items => exprsSites env items
    | .lambda _ params _ body => body.sites (paramEnv params ++ env)

/-- The expressions within expressions that stand side by side. -/
def exprsSites (env : Env) : List Expr → List Site
  | [] => []
  | e :: es => e.sites env .value ++ exprsSites env es

/-- The expressions within the holes of an interpolated string. -/
def partsSites (env : Env) : List Part → List Site
  | [] => []
  | .text _ :: parts => partsSites env parts
  | .hole e :: parts => e.sites env .value ++ partsSites env parts

/-- The expressions within a statement. What a `for` declares can be seen in its body alone. -/
def Stmt.sites (env : Env) : Stmt → List Site
  | .letStmt _ _ _ value _ _ => value.sites env .value
  | .returnStmt none _ => []
  | .returnStmt (some value) _ => value.sites env .value
  | .ifStmt condition body none _ => condition.sites env .value ++ body.sites env
  | .ifStmt condition body (some otherwise) _ =>
    condition.sites env .value ++ body.sites env ++ otherwise.sites env
  | .whileStmt condition body _ => condition.sites env .value ++ body.sites env
  | .forStmt name nameSpan iterable body _ =>
    iterable.sites env .value ++ body.sites ((name, .variable name nameSpan) :: env)
  | .matchStmt scrutinee arms _ => scrutinee.sites env .value ++ armsSites env arms
  | .block body => body.sites env
  | .expr value => value.sites env .value

/-- The expressions within the statements of a block. A declaration can be seen by the statements
after it. -/
def stmtsSites (env : Env) : List Stmt → List Site
  | [] => []
  | stmt :: stmts => stmt.sites env ++ stmtsSites (stmt.declares ++ env) stmts

/-- The expressions within a block. -/
def Block.sites (env : Env) : Block → List Site
  | ⟨stmts, _⟩ => stmtsSites env stmts

/-- The expressions within the arms of a `match`. What a pattern declares can be seen in its arm
alone. -/
def armsSites (env : Env) : List Arm → List Site
  | [] => []
  | ⟨pattern, body, _⟩ :: arms => body.sites (pattern.declares ++ env) ++ armsSites env arms

end

/-- The expressions within a function. -/
def FunctionDecl.sites (env : Env) (f : FunctionDecl) : List Site :=
  f.body.sites (paramEnv f.params ++ env)

/-- What a class declares for its members: all of them, by their bare names. -/
def ClassDecl.env (c : ClassDecl) (module : String) (idx : Nat) : Env :=
  (c.memberNames.map fun name => (name, .member module idx name)).reverse

/-- The expressions within a class. -/
def ClassDecl.sites (env : Env) (module : String) (idx : Nat) (c : ClassDecl) : List Site :=
  exprsSites (c.env module idx ++ env) c.initials ++
    c.methods.flatMap (·.sites (c.env module idx ++ env))

namespace Registry

/-- What the names in sight at the top of a module refer to. -/
def rootEnv (r : Registry) (m : Module) : Env :=
  (r.rootNames m).reverse

/-- The expressions of a module, each where it stands. -/
def sites (r : Registry) (m : Module) : List Site :=
  m.decls.classes.zipIdx.flatMap (fun (c, idx) => c.sites (r.rootEnv m) m.path idx) ++
    m.decls.functions.flatMap (·.sites (r.rootEnv m))

/-- A module that is imported has a top-level declaration of that name, and it is private. -/
def Hides (r : Registry) (m : Module) (owner name : String) : Prop :=
  ∃ i ∈ r.importedModules m, i.path = owner ∧ ∃ s ∈ i.symbols, s.name = name ∧ s.isPublic = false

end Registry

namespace Site

/-- The reference that the environment gives for a site. Only identifiers and the classes of new
instances refer to anything, and the latter only if the name is that of a class. -/
def reference? (s : Site) : Option Reference :=
  match s.expr with
  | .ident node name => (s.env.lookup name).map fun b => ⟨name, node.id, node.span, b⟩
  | .new node className classSpan _ =>
    match s.env.lookup className with
    | some (.classAt module idx) => some ⟨className, node.id, classSpan, .classAt module idx⟩
    | _ => none
  | _ => none

/-- The fault at a site: an identifier that the environment does not have. -/
def fault? (cx : NameContext) (s : Site) : Option Diagnostic :=
  match s.expr with
  | .ident node name =>
    if (s.env.lookup name).isSome then none
    else (cx.unboundCause? name s.usage).map fun cause => ⟨cause, node.span⟩
  | _ => none

end Site

/-! ### The open scopes as an environment -/

namespace ScopeStack

variable {α : Type}

/-- Open scopes after declarations in the innermost one. -/
def onto (ds : List (String × α)) : List (List (String × α)) → List (List (String × α))
  | [] => []
  | frame :: outer => (ds ++ frame) :: outer

@[simp] theorem onto_nil (fs : List (List (String × α))) : onto [] fs = fs := by
  cases fs <;> rfl

@[simp] theorem tail_onto (ds : List (String × α)) (fs : List (List (String × α))) :
    (onto ds fs).tail = fs.tail := by
  cases fs <;> rfl

theorem onto_onto (ds ds' : List (String × α)) (fs : List (List (String × α))) :
    onto ds' (onto ds fs) = onto (ds' ++ ds) fs := by
  cases fs with
  | nil => rfl
  | cons f fs => simp [onto]

theorem flatten_onto (ds : List (String × α)) {fs : List (List (String × α))} (h : fs ≠ []) :
    (onto ds fs).flatten = ds ++ fs.flatten := by
  cases fs with
  | nil => contradiction
  | cons f fs => simp [onto]

theorem onto_ne_nil (ds : List (String × α)) {fs : List (List (String × α))} (h : fs ≠ []) :
    onto ds fs ≠ [] := by
  cases fs with
  | nil => contradiction
  | cons f fs => simp [onto]

theorem frames_declare (s : ScopeStack α) (name : String) (value : α) :
    (s.declare name value).frames = onto [(name, value)] s.frames := by
  unfold declare
  split
  · next h => simp [h, onto]
  · next h => simp [h, onto]

theorem imports_declare (s : ScopeStack α) (name : String) (value : α) :
    (s.declare name value).imports = s.imports := by
  unfold declare
  split <;> rfl

@[simp] theorem maxDepth_declare (s : ScopeStack α) (name : String) (value : α) :
    (s.declare name value).maxDepth = s.maxDepth := by
  unfold declare
  split <;> rfl

theorem frames_foldl_declare (ds : List (String × α)) (s : ScopeStack α) :
    (ds.foldl (fun s d => s.declare d.1 d.2) s).frames = onto ds.reverse s.frames := by
  induction ds generalizing s with
  | nil => simp
  | cons d ds ih =>
    rw [List.foldl_cons, ih, frames_declare, onto_onto, List.reverse_cons]

/-- A look-up goes through all declarations that can be seen, the innermost first. -/
theorem lookup_eq_flatten (s : ScopeStack α) (name : String) :
    s.lookup name = s.frames.flatten.lookup name := by
  unfold lookup
  induction s.frames with
  | nil => rfl
  | cons f fs ih =>
    rw [List.findSome?_cons, List.flatten_cons, List.lookup_append, ← ih]
    cases f.lookup name <;> rfl

end ScopeStack

namespace Binder

open ScopeStack (onto)

/-- The open scopes hold what the environment holds. -/
structure Sees (b : Binder) (env : Env) : Prop where
  open_scope : b.scopes.frames ≠ []
  flatten : b.scopes.frames.flatten = env

/-- The walk has found out what the environment says for the sites, and has added declarations to
the innermost scope. -/
structure Walked (cx : NameContext) (b b' : Binder) (ds : Env) (ss : List Site) : Prop where
  frames : b'.scopes.frames = onto ds b.scopes.frames
  references : b'.references.toList = b.references.toList ++ ss.filterMap Site.reference?
  errors : b'.errors.toList = b.errors.toList ++ ss.filterMap (Site.fault? cx)

/-- One more scope is open, and nothing has been found out. -/
structure Opened (b b' : Binder) : Prop where
  frames : b'.scopes.frames.tail = b.scopes.frames
  references : b'.references = b.references
  errors : b'.errors = b.errors

variable {cx : NameContext} {b b' b'' : Binder} {env ds ds' : Env} {ss ss' : List Site}

theorem Sees.lookup (h : b.Sees env) (name : String) : b.scopes.lookup name = env.lookup name := by
  rw [ScopeStack.lookup_eq_flatten, h.flatten]

theorem Sees.push (h : b.Sees env) : b.push.Sees env :=
  ⟨by simp [Binder.push, ScopeStack.push], by simpa [Binder.push, ScopeStack.push] using h.flatten⟩

theorem foldl_declare {β : Type} (f : β → String × Binding) (xs : List β) (b : Binder) :
    xs.foldl (fun b x => b.declare (f x).1 (f x).2) b =
      { b with scopes := (xs.map f).foldl (fun s d => s.declare d.1 d.2) b.scopes } := by
  induction xs generalizing b with
  | nil => rfl
  | cons x xs ih => exact ih _

/-- Declarations one after the other, of which the last is found first. -/
theorem Sees.foldl_declare {β : Type} (f : β → String × Binding) (xs : List β) (h : b.Sees env) :
    (xs.foldl (fun b x => b.declare (f x).1 (f x).2) b).Sees ((xs.map f).reverse ++ env) := by
  rw [Binder.foldl_declare]
  refine ⟨?_, ?_⟩
  · rw [ScopeStack.frames_foldl_declare]
    exact ScopeStack.onto_ne_nil _ h.open_scope
  · rw [ScopeStack.frames_foldl_declare, ScopeStack.flatten_onto _ h.open_scope, h.flatten]

theorem Sees.declareParams (h : b.Sees env) (params : List Param) :
    (b.declareParams params).Sees (paramEnv params ++ env) :=
  h.foldl_declare (fun p : Param => (p.name, .variable p.name p.span)) params

theorem Sees.declareVariable (h : b.Sees env) (name : String) (span : Span) :
    (b.declareVariable name span).Sees ((name, .variable name span) :: env) :=
  h.foldl_declare (fun _ => (name, .variable name span)) [()]

theorem Opened.push (b : Binder) : b.Opened b.push := ⟨rfl, rfl, rfl⟩

theorem Opened.foldl_declare {β : Type} (f : β → String × Binding) (xs : List β)
    (h : b.Opened b') : b.Opened (xs.foldl (fun b x => b.declare (f x).1 (f x).2) b') := by
  rw [Binder.foldl_declare]
  refine ⟨?_, h.references, h.errors⟩
  rw [ScopeStack.frames_foldl_declare, ScopeStack.tail_onto, h.frames]

theorem Opened.declareParams (h : b.Opened b') (params : List Param) :
    b.Opened (b'.declareParams params) :=
  h.foldl_declare (fun p : Param => (p.name, .variable p.name p.span)) params

theorem Opened.declareVariable (h : b.Opened b') (name : String) (span : Span) :
    b.Opened (b'.declareVariable name span) :=
  h.foldl_declare (fun _ => (name, .variable name span)) [()]

theorem Walked.refl (b : Binder) : Walked cx b b [] [] :=
  ⟨by simp, by simp, by simp⟩

theorem Walked.trans (h : Walked cx b b' ds ss) (h' : Walked cx b' b'' ds' ss') :
    Walked cx b b'' (ds' ++ ds) (ss ++ ss') := by
  refine ⟨?_, ?_, ?_⟩
  · rw [h'.frames, h.frames, ScopeStack.onto_onto]
  · rw [h'.references, h.references, List.filterMap_append, List.append_assoc]
  · rw [h'.errors, h.errors, List.filterMap_append, List.append_assoc]

/-- What was found out in a scope of its own stays when the scope is closed. -/
theorem Walked.pop (h : Walked cx b' b'' ds ss) (ho : b.Opened b') :
    Walked cx b b''.pop [] ss := by
  refine ⟨?_, ?_, ?_⟩
  · show b''.scopes.frames.tail = _
    rw [h.frames, ScopeStack.tail_onto, ho.frames, ScopeStack.onto_nil]
  · rw [← ho.references]
    exact h.references
  · rw [← ho.errors]
    exact h.errors

theorem Walked.sees (h : Walked cx b b' ds ss) (hs : b.Sees env) : b'.Sees (ds ++ env) := by
  refine ⟨?_, ?_⟩
  · rw [h.frames]
    exact ScopeStack.onto_ne_nil _ hs.open_scope
  · rw [h.frames, ScopeStack.flatten_onto _ hs.open_scope, hs.flatten]

/-- A site at which there is nothing to find. -/
theorem Walked.site {s : Site} (h : Walked cx b b' ds ss) (hr : s.reference? = none)
    (he : s.fault? cx = none) : Walked cx b b' ds (s :: ss) := by
  refine ⟨h.frames, ?_, ?_⟩
  · rw [List.filterMap_cons_none hr]
    exact h.references
  · rw [List.filterMap_cons_none he]
    exact h.errors

end Binder

/-! ### The walk finds what the environment says -/

open Binder

theorem bindIdent_walked (cx : NameContext) {b : Binder} {env : Env} (h : b.Sees env) (node : Node)
    (name : String) (usage : Usage) :
    Walked cx b (bindIdent cx b node name usage) [] [⟨.ident node name, usage, env⟩] := by
  unfold bindIdent
  rw [h.lookup]
  cases hl : env.lookup name with
  | some binding =>
    refine ⟨by simp [record], ?_, ?_⟩
    · simp [record, Site.reference?, hl]
    · simp [record, Site.fault?, hl]
  | none =>
    cases hc : cx.unboundCause? name usage with
    | some cause =>
      refine ⟨by simp [report], ?_, ?_⟩
      · simp [report, Site.reference?, hl]
      · simp [report, Site.fault?, hl, hc]
    | none =>
      refine ⟨by simp, ?_, ?_⟩
      · simp [Site.reference?, hl]
      · simp [Site.fault?, hl, hc]

/-- What is recorded for the class of a new instance, before the arguments. -/
theorem bindNew_walked (cx : NameContext) {b : Binder} {env : Env} (h : b.Sees env) (node : Node)
    (className : String) (classSpan : Span) (args : List Expr) (usage : Usage) :
    Walked cx b
      (match b.scopes.lookup className with
        | some (.classAt module idx) => b.record node.id className classSpan (.classAt module idx)
        | _ => b)
      [] [⟨.new node className classSpan args, usage, env⟩] := by
  rw [h.lookup]
  split
  · next module idx hl =>
    refine ⟨by simp [record], ?_, ?_⟩
    · simp [record, Site.reference?, hl]
    · simp [record, Site.fault?]
  · next hl =>
    refine ⟨by simp, ?_, by simp [Site.fault?]⟩
    have hn : Site.reference? ⟨.new node className classSpan args, usage, env⟩ = none := by
      simp only [Site.reference?]
    simp [hn]

mutual

/-- Binding the names in an expression finds what the environment says for every site in it, and
leaves the open scopes as they were. -/
theorem bindExpr_walked (cx : NameContext) : ∀ (e : Expr) {b : Binder} {env : Env} (usage : Usage),
    b.Sees env → Walked cx b (bindExpr cx b usage e) [] (e.sites env usage)
  | .int _ _, b, _, _, _ | .float _ _, b, _, _, _ | .string _ _, b, _, _, _
  | .bool _ _, b, _, _, _ | .this _, b, _, _, _ | .noneLit _, b, _, _, _ =>
    (Walked.refl b).site rfl rfl
  | .ident node name, _, _, usage, h => bindIdent_walked cx h node name usage
  | .interpolated _ parts, _, _, _, h => (bindParts_walked cx parts h).site rfl rfl
  | .someOf _ inner, _, _, _, h => (bindExpr_walked cx inner .value h).site rfl rfl
  | .binary _ _ left right, _, _, _, h => by
    have hl := bindExpr_walked cx left .value h
    have hr := bindExpr_walked cx right .value (hl.sees h)
    exact (hl.trans hr).site rfl rfl
  | .unary _ _ operand, _, _, _, h => (bindExpr_walked cx operand .value h).site rfl rfl
  | .assign _ target value, _, _, _, h => by
    have ht := bindExpr_walked cx target .value h
    have hv := bindExpr_walked cx value .value (ht.sees h)
    exact (ht.trans hv).site rfl rfl
  | .call _ callee args, _, _, _, h => by
    have hc := bindExpr_walked cx callee .callee h
    have ha := bindExprs_walked cx args (hc.sees h)
    exact (hc.trans ha).site rfl rfl
  | .member _ object _ _, _, _, _, h => (bindExpr_walked cx object .receiver h).site rfl rfl
  | .index _ object index, _, _, _, h => by
    have ho := bindExpr_walked cx object .value h
    have hi := bindExpr_walked cx index .value (ho.sees h)
    exact (ho.trans hi).site rfl rfl
  | .new node className classSpan args, _, _, usage, h => by
    have hn := bindNew_walked cx h node className classSpan args usage
    exact hn.trans (bindExprs_walked cx args (hn.sees h))
  | .array _ items, _, _, _, h => (bindExprs_walked cx items h).site rfl rfl
  | .lambda _ params _ body, b, _, _, h => by
    have hb := bindBlock_walked cx body (h.push.declareParams params)
    exact (hb.pop ((Opened.push b).declareParams params)).site rfl rfl

theorem bindExprs_walked (cx : NameContext) : ∀ (es : List Expr) {b : Binder} {env : Env},
    b.Sees env → Walked cx b (bindExprs cx b es) [] (exprsSites env es)
  | [], b, _, _ => Walked.refl b
  | e :: es, _, _, h => by
    have he := bindExpr_walked cx e .value h
    exact he.trans (bindExprs_walked cx es (he.sees h))

theorem bindParts_walked (cx : NameContext) : ∀ (ps : List Part) {b : Binder} {env : Env},
    b.Sees env → Walked cx b (bindParts cx b ps) [] (partsSites env ps)
  | [], b, _, _ => Walked.refl b
  | .text _ :: ps, _, _, h => bindParts_walked cx ps h
  | .hole e :: ps, _, _, h => by
    have he := bindExpr_walked cx e .value h
    exact he.trans (bindParts_walked cx ps (he.sees h))

/-- Binding the names in a statement adds to the innermost scope what the statement declares. -/
theorem bindStmt_walked (cx : NameContext) : ∀ (s : Stmt) {b : Binder} {env : Env},
    b.Sees env → Walked cx b (bindStmt cx b s) s.declares (s.sites env)
  | .letStmt name _ _ value nameSpan _, _, _, h => by
    have hv := bindExpr_walked cx value .value h
    refine ⟨?_, hv.references, hv.errors⟩
    exact (ScopeStack.frames_declare _ name _).trans (congrArg _ (hv.frames.trans (by simp)))
  | .returnStmt none _, b, _, _ => Walked.refl b
  | .returnStmt (some value) _, _, _, h => bindExpr_walked cx value .value h
  | .ifStmt condition body none _, _, _, h => by
    have hc := bindExpr_walked cx condition .value h
    exact hc.trans (bindBlock_walked cx body (hc.sees h))
  | .ifStmt condition body (some otherwise) _, _, _, h => by
    have hc := bindExpr_walked cx condition .value h
    have hb := hc.trans (bindBlock_walked cx body (hc.sees h))
    have ho := hb.trans (bindStmt_walked cx otherwise (hb.sees h))
    simpa only [bindStmt, Stmt.declares, Stmt.sites, List.append_nil, List.nil_append] using ho
  | .whileStmt condition body _, _, _, h => by
    have hc := bindExpr_walked cx condition .value h
    exact hc.trans (bindBlock_walked cx body (hc.sees h))
  | .forStmt name nameSpan iterable body _, _, _, h => by
    have hi := bindExpr_walked cx iterable .value h
    have hb := bindBlock_walked cx body ((hi.sees h).push.declareVariable name nameSpan)
    exact hi.trans (hb.pop ((Opened.push _).declareVariable name nameSpan))
  | .matchStmt scrutinee arms _, _, _, h => by
    have hs := bindExpr_walked cx scrutinee .value h
    exact hs.trans (bindArms_walked cx arms (hs.sees h))
  | .block body, _, _, h => bindBlock_walked cx body h
  | .expr value, _, _, h => bindExpr_walked cx value .value h

theorem bindStmts_walked (cx : NameContext) : ∀ (ss : List Stmt) {b : Binder} {env : Env},
    b.Sees env → ∃ ds, Walked cx b (bindStmts cx b ss) ds (stmtsSites env ss)
  | [], b, _, _ => ⟨[], Walked.refl b⟩
  | s :: ss, _, _, h => by
    have hs := bindStmt_walked cx s h
    obtain ⟨ds, hss⟩ := bindStmts_walked cx ss (hs.sees h)
    exact ⟨_, hs.trans hss⟩

/-- Nothing that is declared in a block is left when the block is closed. -/
theorem bindBlock_walked (cx : NameContext) : ∀ (body : Block) {b : Binder} {env : Env},
    b.Sees env → Walked cx b (bindBlock cx b body) [] (body.sites env)
  | ⟨stmts, _⟩, b, _, h => by
    obtain ⟨ds, hs⟩ := bindStmts_walked cx stmts h.push
    exact hs.pop (Opened.push b)

theorem bindArms_walked (cx : NameContext) : ∀ (arms : List Arm) {b : Binder} {env : Env},
    b.Sees env → Walked cx b (bindArms cx b arms) [] (armsSites env arms)
  | [], b, _, _ => Walked.refl b
  | ⟨.some name span, body, _⟩ :: arms, b, _, h => by
    have hb := bindBlock_walked cx body (h.push.declareVariable name span)
    have hp := hb.pop ((Opened.push b).declareVariable name span)
    exact hp.trans (bindArms_walked cx arms (hp.sees h))
  | ⟨.none, body, _⟩ :: arms, b, _, h | ⟨.wildcard, body, _⟩ :: arms, b, _, h => by
    have hb := (bindBlock_walked cx body h.push).pop (Opened.push b)
    exact hb.trans (bindArms_walked cx arms (hb.sees h))

end

/-- A walk over a list that leaves the open scopes as they were at every step. -/
theorem Binder.Walked.foldl {β : Type} {cx : NameContext} {env : Env} {f : Binder → β → Binder}
    {g : β → List Site} (hf : ∀ x {b : Binder}, b.Sees env → Walked cx b (f b x) [] (g x)) :
    ∀ (xs : List β) {b : Binder}, b.Sees env → Walked cx b (xs.foldl f b) [] (xs.flatMap g)
  | [], b, _ => Walked.refl b
  | x :: xs, _, h => by
    have hx := hf x h
    exact hx.trans (Walked.foldl hf xs (hx.sees h))

theorem bindFunction_walked (cx : NameContext) (f : FunctionDecl) {b : Binder} {env : Env}
    (h : b.Sees env) : Walked cx b (bindFunction cx b f) [] (f.sites env) := by
  have hb := bindBlock_walked cx f.body (h.push.declareParams f.params)
  exact hb.pop ((Opened.push b).declareParams f.params)

theorem bindClass_walked (cx : NameContext) (idx : Nat) (c : ClassDecl) {b : Binder} {env : Env}
    (h : b.Sees env) :
    Walked cx b (bindClass cx b idx c) [] (c.sites env cx.module.path idx) := by
  have hs := h.push.foldl_declare (fun name => (name, .member cx.module.path idx name))
    c.memberNames
  have ho := (Opened.push b).foldl_declare
    (fun name => (name, Binding.member cx.module.path idx name)) c.memberNames
  have hi := bindExprs_walked cx c.initials hs
  have hm := Walked.foldl (fun f _ => bindFunction_walked cx f) c.methods (hi.sees hs)
  exact (hi.trans hm).pop ho

theorem sees_rootEnv (r : Registry) (m : Module) :
    Binder.Sees { scopes := r.rootScope m } (r.rootEnv m) := by
  have hf : (r.rootScope m).frames = ScopeStack.onto (r.rootNames m).reverse [[]] :=
    ScopeStack.frames_foldl_declare _ _
  refine ⟨?_, ?_⟩
  · rw [hf]
    exact ScopeStack.onto_ne_nil _ (by simp)
  · rw [hf]
    simp [ScopeStack.onto, Registry.rootEnv]

theorem bindModule_walked (r : Registry) (m : Module) :
    ∃ b, Walked ⟨r, m⟩ { scopes := r.rootScope m } b [] (r.sites m) ∧
      bindModule ⟨r, m⟩ (r.rootScope m) = b.pop := by
  have hs := sees_rootEnv r m
  have hc := Walked.foldl (fun x _ => bindClass_walked ⟨r, m⟩ x.2 x.1) m.decls.classes.zipIdx hs
  have hf := Walked.foldl (fun f _ => bindFunction_walked ⟨r, m⟩ f) m.decls.functions (hc.sees hs)
  exact ⟨_, hc.trans hf, rfl⟩

/-! ### Every expression stands somewhere -/

theorem cons_perm_snoc {α : Type} {as bs : List α} (a : α) (h : as.Perm bs) :
    (a :: as).Perm (bs ++ [a]) :=
  (h.cons a).trans (List.perm_append_singleton a bs).symm

mutual

theorem sites_perm : ∀ (e : Expr) (env : Env) (usage : Usage),
    ((e.sites env usage).map (·.expr)).Perm e.within
  | .int _ _, _, _ | .float _ _, _, _ | .string _ _, _, _ | .bool _ _, _, _ | .ident _ _, _, _
  | .this _, _, _ | .noneLit _, _, _ => .refl _
  | .interpolated _ parts, env, _ => cons_perm_snoc _ (partsSites_perm parts env)
  | .someOf _ inner, env, _ => cons_perm_snoc _ (sites_perm inner env .value)
  | .binary _ _ left right, env, _ => by
    refine cons_perm_snoc _ ?_
    rw [List.map_append]
    exact (sites_perm left env .value).append (sites_perm right env .value)
  | .unary _ _ operand, env, _ => cons_perm_snoc _ (sites_perm operand env .value)
  | .assign _ target value, env, _ => by
    refine cons_perm_snoc _ ?_
    rw [List.map_append]
    exact (sites_perm target env .value).append (sites_perm value env .value)
  | .call _ callee args, env, _ => by
    refine cons_perm_snoc _ ?_
    rw [List.map_append]
    exact (sites_perm callee env .callee).append (exprsSites_perm args env)
  | .member _ object _ _, env, _ => cons_perm_snoc _ (sites_perm object env .receiver)
  | .index _ object index, env, _ => by
    refine cons_perm_snoc _ ?_
    rw [List.map_append]
    exact (sites_perm object env .value).append (sites_perm index env .value)
  | .new _ _ _ args, env, _ => cons_perm_snoc _ (exprsSites_perm args env)
  | .array _ items, env, _ => cons_perm_snoc _ (exprsSites_perm items env)
  | .lambda _ params _ body, env, _ =>
    cons_perm_snoc _ (blockSites_perm body (paramEnv params ++ env))

theorem exprsSites_perm : ∀ (es : List Expr) (env : Env),
    ((exprsSites env es).map (·.expr)).Perm (exprsWithin es)
  | [], _ => .refl _
  | e :: es, env => by
    simp only [exprsSites, exprsWithin, List.map_append]
    exact (sites_perm e env .value).append (exprsSites_perm es env)

theorem partsSites_perm : ∀ (ps : List Part) (env : Env),
    ((partsSites env ps).map (·.expr)).Perm (partsWithin ps)
  | [], _ => .refl _
  | .text _ :: ps, env => partsSites_perm ps env
  | .hole e :: ps, env => by
    simp only [partsSites, partsWithin, List.map_append]
    exact (sites_perm e env .value).append (partsSites_perm ps env)

theorem stmtSites_perm : ∀ (s : Stmt) (env : Env),
    ((s.sites env).map (·.expr)).Perm s.within
  | .letStmt _ _ _ value _ _, env => sites_perm value env .value
  | .returnStmt none _, _ => .refl _
  | .returnStmt (some value) _, env => sites_perm value env .value
  | .ifStmt condition body none _, env => by
    simp only [Stmt.sites, Stmt.within, List.map_append]
    exact (sites_perm condition env .value).append (blockSites_perm body env)
  | .ifStmt condition body (some otherwise) _, env => by
    simp only [Stmt.sites, Stmt.within, List.map_append]
    exact ((sites_perm condition env .value).append (blockSites_perm body env)).append
      (stmtSites_perm otherwise env)
  | .whileStmt condition body _, env => by
    simp only [Stmt.sites, Stmt.within, List.map_append]
    exact (sites_perm condition env .value).append (blockSites_perm body env)
  | .forStmt name nameSpan iterable body _, env => by
    simp only [Stmt.sites, Stmt.within, List.map_append]
    exact (sites_perm iterable env .value).append (blockSites_perm body _)
  | .matchStmt scrutinee arms _, env => by
    simp only [Stmt.sites, Stmt.within, List.map_append]
    exact (sites_perm scrutinee env .value).append (armsSites_perm arms env)
  | .block body, env => blockSites_perm body env
  | .expr value, env => sites_perm value env .value

theorem stmtsSites_perm : ∀ (ss : List Stmt) (env : Env),
    ((stmtsSites env ss).map (·.expr)).Perm (stmtsWithin ss)
  | [], _ => .refl _
  | s :: ss, env => by
    simp only [stmtsSites, stmtsWithin, List.map_append]
    exact (stmtSites_perm s env).append (stmtsSites_perm ss _)

theorem blockSites_perm : ∀ (body : Block) (env : Env),
    ((body.sites env).map (·.expr)).Perm body.within
  | ⟨stmts, _⟩, env => stmtsSites_perm stmts env

theorem armsSites_perm : ∀ (arms : List Arm) (env : Env),
    ((armsSites env arms).map (·.expr)).Perm (armsWithin arms)
  | [], _ => .refl _
  | ⟨pattern, body, _⟩ :: arms, env => by
    simp only [armsSites, armsWithin, List.map_append]
    exact (blockSites_perm body _).append (armsSites_perm arms env)

end

theorem flatMap_sites_perm {β : Type} {g : β → List Site} {w : β → List Expr}
    (h : ∀ x, ((g x).map (·.expr)).Perm (w x)) (xs : List β) :
    ((xs.flatMap g).map (·.expr)).Perm (xs.flatMap w) := by
  induction xs with
  | nil => exact .refl _
  | cons x xs ih =>
    simp only [List.flatMap_cons, List.map_append]
    exact (h x).append ih

theorem classSites_perm (c : ClassDecl) (env : Env) (module : String) (idx : Nat) :
    ((c.sites env module idx).map (·.expr)).Perm c.within := by
  simp only [ClassDecl.sites, ClassDecl.within, List.map_append]
  refine (exprsSites_perm c.initials _).append ?_
  exact flatMap_sites_perm (fun f => blockSites_perm f.body _) c.methods

theorem flatMap_zipIdx_fst {α β : Type} (g : α → List β) (xs : List α) :
    xs.zipIdx.flatMap (fun x => g x.1) = xs.flatMap g := by
  rw [← List.flatMap_map Prod.fst g, List.zipIdx_map_fst]

/-- The sites of a module are its expressions, each once. -/
theorem sites_perm_exprs (r : Registry) (m : Module) :
    ((r.sites m).map (·.expr)).Perm m.exprs := by
  have hc := flatMap_sites_perm (g := fun x : ClassDecl × Nat => x.1.sites (r.rootEnv m) m.path x.2)
    (w := fun x => x.1.within) (fun x => classSites_perm x.1 (r.rootEnv m) m.path x.2)
    m.decls.classes.zipIdx
  have hf := flatMap_sites_perm (g := fun f : FunctionDecl => f.sites (r.rootEnv m))
    (fun f => blockSites_perm f.body _) m.decls.functions
  rw [flatMap_zipIdx_fst] at hc
  rw [Registry.sites, List.map_append]
  exact hc.append hf

/-! ### The outcome of an identifier -/

theorem hides_of_privateOwner? {r : Registry} {m : Module} {name owner : String}
    (h : r.privateOwner? m name = some owner) : r.Hides m owner name := by
  obtain ⟨i, hi, rfl⟩ := Option.map_eq_some_iff.1 h
  have hp := List.find?_some hi
  obtain ⟨s, hs, hn⟩ := List.any_eq_true.1 hp
  simp only [Bool.and_eq_true, beq_iff_eq, Bool.not_eq_true'] at hn
  exact ⟨i, by simpa using List.mem_of_find?_eq_some hi, rfl, s, hs, hn⟩

theorem not_hides_of_privateOwner? {r : Registry} {m : Module} {name : String}
    (h : r.privateOwner? m name = none) (owner : String) : ¬ r.Hides m owner name := by
  rintro ⟨i, hi, -, s, hs, hn, hp⟩
  have hf := List.find?_eq_none.1 (Option.map_eq_none_iff.1 h) i (List.mem_reverse.2 hi)
  exact hf (List.any_eq_true.2 ⟨s, hs, by simp [hn, hp]⟩)

/-- What has become of the identifier `name` at a site of module `m`. -/
inductive Site.Settled (r : Registry) (m : Module) (s : Site) (node : Node) (name : String) : Prop
  /-- It refers to what the environment says. -/
  | bound (b : Binding) (found : s.env.lookup name = some b)
      (refers : s.reference? = some ⟨name, node.id, node.span, b⟩) (fine : s.fault? ⟨r, m⟩ = none)
  /-- The environment does not have it, but an import keeps a declaration of that name private. -/
  | hidden (owner : String) (missing : s.env.lookup name = none) (hides : r.Hides m owner name)
      (refers : s.reference? = none)
      (faulty : s.fault? ⟨r, m⟩ = some ⟨.visibilityViolation name owner, node.span⟩)
  /-- The environment does not have it, and no import has. -/
  | undefined (missing : s.env.lookup name = none) (unknown : ∀ owner, ¬ r.Hides m owner name)
      (needed : m.importFailed = false ∨ s.usage = .value) (refers : s.reference? = none)
      (faulty : s.fault? ⟨r, m⟩ = some ⟨.undefinedIdentifier name, node.span⟩)
  /-- It is called or has a member taken from it, so an import that failed may have had it. -/
  | excused (missing : s.env.lookup name = none) (unknown : ∀ owner, ¬ r.Hides m owner name)
      (failed : m.importFailed = true) (used : s.usage = .callee ∨ s.usage = .receiver)
      (refers : s.reference? = none) (fine : s.fault? ⟨r, m⟩ = none)

theorem Site.settled (r : Registry) (m : Module) (s : Site) {node : Node} {name : String}
    (h : s.expr = .ident node name) : s.Settled r m node name := by
  cases hl : s.env.lookup name with
  | some b => exact .bound b hl (by simp [reference?, h, hl]) (by simp [fault?, h, hl])
  | none =>
    have hr : s.reference? = none := by simp [reference?, h, hl]
    cases ho : r.privateOwner? m name with
    | some owner =>
      refine .hidden owner hl (hides_of_privateOwner? ho) hr ?_
      simp [fault?, h, hl, NameContext.unboundCause?, ho]
    | none =>
      have hu := not_hides_of_privateOwner? ho
      by_cases hx : m.importFailed = true ∧ s.usage ≠ .value
      · refine .excused hl hu hx.1 ?_ hr ?_
        · cases hs : s.usage with
          | value => exact absurd hs hx.2
          | callee => exact .inl rfl
          | receiver => exact .inr rfl
        · simp [fault?, h, hl, NameContext.unboundCause?, ho, hx.1, hx.2]
      · refine .undefined hl hu ?_ hr ?_
        · by_cases hv : s.usage = .value
          · exact .inr hv
          · exact .inl (by simpa [hv] using hx)
        · simp only [fault?, h, hl, NameContext.unboundCause?, ho, if_neg hx]
          rfl

theorem references_eq_sites {r : Registry} {path : String} {m : Module}
    (hm : r.find? path = some m) :
    (r.names path).references.toList = (r.sites m).filterMap Site.reference? := by
  obtain ⟨b, hb, he⟩ := bindModule_walked r m
  have hr : (r.names path).references = b.references := by
    simp [Registry.names, hm, he, Binder.pop]
  rw [hr, hb.references]
  rfl

theorem errors_eq_sites {r : Registry} {path : String} {m : Module} (hm : r.find? path = some m) :
    (r.names path).errors.toList = (r.sites m).filterMap (Site.fault? ⟨r, m⟩) := by
  obtain ⟨b, hb, he⟩ := bindModule_walked r m
  have hf : (r.names path).errors = b.errors := by
    simp [Registry.names, hm, he, Binder.pop]
  rw [hf, hb.errors]
  rfl

/-! ### The binding of a number -/

theorem Site.node_of_reference? {s : Site} {ref : Reference} (h : s.reference? = some ref) :
    ref.node = s.expr.id := by
  unfold Site.reference? at h
  split at h
  · next node name he =>
    obtain ⟨b, -, rfl⟩ := Option.map_eq_some_iff.1 h
    rw [he]
    rfl
  · next node className classSpan args he =>
    split at h
    · cases h
      rw [he]
      rfl
    · cases h
  · cases h

/-- Where no two sites have expressions of the same number, the first reference with the number of
an expression is that of its site. -/
theorem find?_references {ss : List Site} (hn : (ss.map (·.expr.id)).Nodup) {s : Site}
    (hs : s ∈ ss) : (ss.filterMap Site.reference?).find? (·.node == s.expr.id) = s.reference? := by
  induction ss with
  | nil => contradiction
  | cons t ss ih =>
    rw [List.map_cons, List.nodup_cons] at hn
    rcases List.mem_cons.1 hs with rfl | hs
    · cases hr : s.reference? with
      | some ref =>
        rw [List.filterMap_cons_some hr]
        simp [Site.node_of_reference? hr]
      | none =>
        rw [List.filterMap_cons_none hr, List.find?_eq_none]
        rintro ref href he
        obtain ⟨t, ht, hr'⟩ := List.mem_filterMap.1 href
        refine hn.1 ?_
        rw [← beq_iff_eq.1 he, Site.node_of_reference? hr']
        exact List.mem_map_of_mem (f := fun t : Site => t.expr.id) ht
    · cases hr : t.reference? with
      | some ref =>
        have he : (ref.node == s.expr.id) = false := by
          rw [Site.node_of_reference? hr]
          refine beq_false_of_ne fun he => hn.1 ?_
          rw [he]
          exact List.mem_map_of_mem (f := fun t : Site => t.expr.id) hs
        rw [List.filterMap_cons_some hr, List.find?_cons, he]
        exact ih hn.2 hs
      | none =>
        rw [List.filterMap_cons_none hr]
        exact ih hn.2 hs

/-- What is bound to the number of an expression is what the environment of its site says. -/
theorem binding?_of_mem_sites {r : Registry} {path : String} {m : Module}
    (hm : r.find? path = some m) (hn : m.Numbered) {s : Site} (hs : s ∈ r.sites m) :
    (r.names path).binding? s.expr.id = s.reference?.map (·.binding) := by
  have hp := (sites_perm_exprs r m).map Expr.id
  rw [List.map_map] at hp
  have hf := find?_references (hp.nodup_iff.2 hn) hs
  rw [Names.binding?, ← Array.find?_toList, references_eq_sites hm, hf]

/-- **Names are lexically scoped.** The expressions of a module each stand at one site; the
references and faults that are found are those of the sites, in their order; and every identifier is
settled by its environment. -/
theorem names_eq_lexical {r : Registry} {path : String} {m : Module} (hm : r.find? path = some m) :
    ((r.sites m).map (·.expr)).Perm m.exprs ∧
      (r.names path).references.toList = (r.sites m).filterMap Site.reference? ∧
      (r.names path).errors.toList = (r.sites m).filterMap (Site.fault? ⟨r, m⟩) ∧
      ∀ s ∈ r.sites m, ∀ node name, s.expr = .ident node name → s.Settled r m node name :=
  ⟨sites_perm_exprs r m, references_eq_sites hm, errors_eq_sites hm,
    fun s _ _ _ h => s.settled r m h⟩

/-- `fn f(x: int) { let x = x; g(x); }`. -/
def shadowing : Module where
  path := "a"
  package := .root "app"
  decls :=
    { functions :=
        [{ name := "f"
           params := [⟨"x", .int, ⟨"a.mg", 5, 11⟩⟩]
           ret := .void
           body :=
            ⟨[.letStmt "x" false none (.ident ⟨0, ⟨"a.mg", 23, 24⟩⟩ "x") ⟨"a.mg", 19, 20⟩
                ⟨"a.mg", 15, 25⟩,
              .expr (.call ⟨3, ⟨"a.mg", 26, 30⟩⟩ (.ident ⟨1, ⟨"a.mg", 26, 27⟩⟩ "g")
                [.ident ⟨2, ⟨"a.mg", 28, 29⟩⟩ "x"])], ⟨"a.mg", 13, 33⟩⟩
           isPublic := true
           isStatic := false
           nameSpan := ⟨"a.mg", 3, 4⟩
           span := ⟨"a.mg", 0, 33⟩ }] }

/-- The parameter can be seen in the initial value of the `let` that hides it, the `let` after it,
and nothing is called `g`. -/
theorem names_eq_lexical_shadowing :
    (Registry.empty.insert shadowing).find? "a" = some shadowing ∧
      ((Registry.empty.insert shadowing).names "a").references.toList =
        [⟨"x", 0, ⟨"a.mg", 23, 24⟩, .variable "x" ⟨"a.mg", 5, 11⟩⟩,
         ⟨"x", 2, ⟨"a.mg", 28, 29⟩, .variable "x" ⟨"a.mg", 19, 20⟩⟩] ∧
      ((Registry.empty.insert shadowing).names "a").errors.toList =
        [⟨.undefinedIdentifier "g", ⟨"a.mg", 26, 27⟩⟩] := by
  have hm : (Registry.empty.insert shadowing).find? "a" = some shadowing := rfl
  have h := names_eq_lexical hm
  refine ⟨hm, ?_, ?_⟩
  · rw [h.2.1]
    decide
  · rw [h.2.2.1]
    decide

end MgLang
