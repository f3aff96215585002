import MgLang.Proofs.Outline
/-!
# Binding names in modules that look alike

A walk through a tree with other numbers finds the same faults and, at the other numbers, the same
references (`bindExpr_renumber`, `bindModule_renumber`), as long as it gives the same reasons for
names that are bound to nothing. So what is found out about a module depends on other modules
through their outlines alone (`Registry.Alike.names`).
-/

namespace MgLang

/-! ### The walk through a renumbered tree -/

namespace Binder

/-- The state of the walk, with other numbers in what has been found. -/
def renumber (ρ : Nat → Nat) (b : Binder) : Binder :=
  { b with references := b.references.map (·.renumber ρ) }

variable (ρ : Nat → Nat) (b : Binder)

@[simp] theorem scopes_renumber : (b.renumber ρ).scopes = b.scopes := rfl

theorem push_renumber : (b.renumber ρ).push = b.push.renumber ρ := rfl

theorem pop_renumber : (b.renumber ρ).pop = b.pop.renumber ρ := rfl

theorem declareVariable_renumber (name : String) (span : Span) :
    (b.renumber ρ).declareVariable name span = (b.declareVariable name span).renumber ρ := rfl

theorem record_renumber (node : Nat) (name : String) (span : Span) (binding : Binding) :
    (b.renumber ρ).record (ρ node) name span binding = (b.record node name span binding).renumber ρ := by
  simp only [record, renumber, Array.map_push, Reference.renumber]

/-- What steps do one after the other on a renumbered state, if each of them does it. -/
theorem foldl_renumber {α : Type} {f f' : Binder → α → Binder} {g : α → α}
    (h : ∀ b a, f' (b.renumber ρ) (g a) = (f b a).renumber ρ) (as : List α) :
    (as.map g).foldl f' (b.renumber ρ) = (as.foldl f b).renumber ρ := by
  induction as generalizing b with
  | nil => rfl
  | cons a as ih => rw [List.map_cons, List.foldl_cons, List.foldl_cons, h, ih]

/-- Declarations one after the other, on a renumbered state. -/
theorem foldl_declare_renumber {α : Type} (f : α → String × Binding) (as : List α) :
    as.foldl (fun b a => b.declare (f a).1 (f a).2) (b.renumber ρ) =
      (as.foldl (fun b a => b.declare (f a).1 (f a).2) b).renumber ρ := by
  rw [Binder.foldl_declare, Binder.foldl_declare]
  rfl

theorem declareParams_renumber (params : List Param) :
    (b.renumber ρ).declareParams params = (b.declareParams params).renumber ρ :=
  foldl_declare_renumber ρ b (fun p : Param => (p.name, .variable p.name p.span)) params

end Binder

open Binder

section Walk

variable {ρ : Nat → Nat} {cx cx' : NameContext}

theorem bindIdent_renumber (hu : cx'.unboundCause? = cx.unboundCause?) (b : Binder) (node : Node) (name : String) (usage : Usage) :
    bindIdent cx' (b.renumber ρ) (node.renumber ρ) name usage =
      (bindIdent cx b node name usage).renumber ρ := by
  unfold bindIdent
  rw [scopes_renumber, hu]
  cases b.scopes.lookup name with
  | some binding => exact record_renumber ρ b node.id name node.span binding
  | none => cases cx.unboundCause? name usage <;> rfl

/-- What is recorded for the class of a new instance. -/
theorem bindNew_renumber (b : Binder) (node : Node) (className : String) (classSpan : Span) :
    (match (b.renumber ρ).scopes.lookup className with
      | some (.classAt module idx) =>
        (b.renumber ρ).record (node.renumber ρ).id className classSpan (.classAt module idx)
      | _ => b.renumber ρ) =
    (match b.scopes.lookup className with
      | some (.classAt module idx) => b.record node.id className classSpan (.classAt module idx)
      | _ => b).renumber ρ := by
  rw [scopes_renumber]
  split
  · exact record_renumber ρ b node.id className classSpan _
  · rfl

mutual

theorem bindExpr_renumber (hu : cx'.unboundCause? = cx.unboundCause?) : ∀ (e : Expr) (b : Binder) (usage : Usage),
    bindExpr cx' (b.renumber ρ) usage (e.renumber ρ) = (bindExpr cx b usage e).renumber ρ
  | .int _ _, _, _ | .float _ _, _, _ | .string _ _, _, _ | .bool _ _, _, _ | .this _, _, _
  | .noneLit _, _, _ => rfl
  | .ident node name, b, usage => bindIdent_renumber hu b node name usage
  | .interpolated _ parts, b, _ => bindParts_renumber hu parts b
  | .someOf _ inner, b, _ => bindExpr_renumber hu inner b .value
  | .binary _ _ left right, b, _ => by
    rw [Expr.renumber, bindExpr, bindExpr, bindExpr_renumber hu left, bindExpr_renumber hu right]
  | .unary _ _ operand, b, _ => bindExpr_renumber hu operand b .value
  | .assign _ target value, b, _ => by
    rw [Expr.renumber, bindExpr, bindExpr, bindExpr_renumber hu target, bindExpr_renumber hu value]
  | .call _ callee args, b, _ => by
    rw [Expr.renumber, bindExpr, bindExpr, bindExpr_renumber hu callee, bindExprs_renumber hu args]
  | .member _ object _ _, b, _ => bindExpr_renumber hu object b .receiver
  | .index _ object index, b, _ => by
    rw [Expr.renumber, bindExpr, bindExpr, bindExpr_renumber hu object, bindExpr_renumber hu index]
  | .new node className classSpan args, b, _ => by
    rw [Expr.renumber, bindExpr, bindExpr, ← bindExprs_renumber hu args]
    exact congrArg (bindExprs cx' · _) (bindNew_renumber b node className classSpan)
  | .array _ items, b, _ => bindExprs_renumber hu items b
  | .lambda _ params _ body, b, _ => by
    rw [Expr.renumber, bindExpr, bindExpr, push_renumber, declareParams_renumber,
      bindBlock_renumber hu body, pop_renumber]

theorem bindExprs_renumber (hu : cx'.unboundCause? = cx.unboundCause?) : ∀ (es : List Expr) (b : Binder),
    bindExprs cx' (b.renumber ρ) (renumberExprs ρ es) = (bindExprs cx b es).renumber ρ
  | [], _ => rfl
  | e :: es, b => by
    rw [renumberExprs, bindExprs, bindExprs, bindExpr_renumber hu e, bindExprs_renumber hu es]

theorem bindParts_renumber (hu : cx'.unboundCause? = cx.unboundCause?) : ∀ (parts : List Part) (b : Binder),
    bindParts cx' (b.renumber ρ) (renumberParts ρ parts) = (bindParts cx b parts).renumber ρ
  | [], _ => rfl
  | .text _ :: parts, b => bindParts_renumber hu parts b
  | .hole e :: parts, b => by
    rw [renumberParts, bindParts, bindParts, bindExpr_renumber hu e, bindParts_renumber hu parts]

theorem bindStmt_renumber (hu : cx'.unboundCause? = cx.unboundCause?) : ∀ (stmt : Stmt) (b : Binder),
    bindStmt cx' (b.renumber ρ) (stmt.renumber ρ) = (bindStmt cx b stmt).renumber ρ
  | .letStmt _ _ _ value _ _, b => by
    rw [Stmt.renumber, bindStmt, bindStmt, bindExpr_renumber hu value, declareVariable_renumber]
  | .returnStmt none _, _ => rfl
  | .returnStmt (some value) _, b => bindExpr_renumber hu value b .value
  | .ifStmt condition body none _, b => by
    rw [Stmt.renumber, bindStmt, bindStmt, bindExpr_renumber hu condition, bindBlock_renumber hu body]
  | .ifStmt condition body (some otherwise) _, b => by
    rw [Stmt.renumber, bindStmt, bindStmt, bindExpr_renumber hu condition, bindBlock_renumber hu body,
      bindStmt_renumber hu otherwise]
  | .whileStmt condition body _, b => by
    rw [Stmt.renumber, bindStmt, bindStmt, bindExpr_renumber hu condition, bindBlock_renumber hu body]
  | .forStmt _ _ iterable body _, b => by
    rw [Stmt.renumber, bindStmt, bindStmt, bindExpr_renumber hu iterable, push_renumber,
      declareVariable_renumber, bindBlock_renumber hu body, pop_renumber]
  | .matchStmt scrutinee arms _, b => by
    rw [Stmt.renumber, bindStmt, bindStmt, bindExpr_renumber hu scrutinee, bindArms_renumber hu arms]
  | .block body, b => bindBlock_renumber hu body b
  | .expr value, b => bindExpr_renumber hu value b .value

theorem bindStmts_renumber (hu : cx'.unboundCause? = cx.unboundCause?) : ∀ (stmts : List Stmt) (b : Binder),
    bindStmts cx' (b.renumber ρ) (renumberStmts ρ stmts) = (bindStmts cx b stmts).renumber ρ
  | [], _ => rfl
  | stmt :: stmts, b => by
    rw [renumberStmts, bindStmts, bindStmts, bindStmt_renumber hu stmt, bindStmts_renumber hu stmts]

theorem bindBlock_renumber (hu : cx'.unboundCause? = cx.unboundCause?) : ∀ (body : Block) (b : Binder),
    bindBlock cx' (b.renumber ρ) (body.renumber ρ) = (bindBlock cx b body).renumber ρ
  | ⟨stmts, _⟩, b => by
    rw [Block.renumber, bindBlock, bindBlock, push_renumber, bindStmts_renumber hu stmts,
      pop_renumber]

theorem bindArms_renumber (hu : cx'.unboundCause? = cx.unboundCause?) : ∀ (arms : List Arm) (b : Binder),
    bindArms cx' (b.renumber ρ) (renumberArms ρ arms) = (bindArms cx b arms).renumber ρ
  | [], _ => rfl
  | ⟨.some _ _, body, _⟩ :: arms, b => by
    rw [renumberArms, bindArms, bindArms, push_renumber, declareVariable_renumber,
      bindBlock_renumber hu body, pop_renumber, bindArms_renumber hu arms]
  | ⟨.none, body, _⟩ :: arms, b | ⟨.wildcard, body, _⟩ :: arms, b => by
    rw [renumberArms, bindArms, bindArms, push_renumber, bindBlock_renumber hu body, pop_renumber,
      bindArms_renumber hu arms]
    all_goals nofun

end

theorem bindFunction_renumber (hu : cx'.unboundCause? = cx.unboundCause?) (b : Binder) (f : FunctionDecl) :
    bindFunction cx' (b.renumber ρ) (f.renumber ρ) = (bindFunction cx b f).renumber ρ := by
  unfold bindFunction
  rw [push_renumber, FunctionDecl.renumber, declareParams_renumber, bindBlock_renumber hu f.body,
    pop_renumber]

/-- The initial values of renumbered fields. -/
theorem filterMap_initial_renumber (fields : List FieldDecl) :
    (fields.map (·.renumber ρ)).filterMap (·.initial) =
      renumberExprs ρ (fields.filterMap (·.initial)) := by
  rw [renumberExprs_eq_map, List.filterMap_map, List.map_filterMap]
  rfl

theorem memberNames_renumber (c : ClassDecl) : (c.renumber ρ).memberNames = c.memberNames := by
  simp only [ClassDecl.memberNames, ClassDecl.renumber, List.map_map]
  rfl

theorem bindClass_renumber (hu : cx'.unboundCause? = cx.unboundCause?)
    (hp : cx'.module.path = cx.module.path) (b : Binder) (idx : Nat) (c : ClassDecl) :
    bindClass cx' (b.renumber ρ) idx (c.renumber ρ) = (bindClass cx b idx c).renumber ρ := by
  have hin := foldl_declare_renumber ρ b.push
    (fun name => (name, .member cx.module.path idx name)) c.memberNames
  unfold bindClass
  simp only [memberNames_renumber, hp]
  rw [push_renumber, hin, ClassDecl.renumber, filterMap_initial_renumber, bindExprs_renumber hu,
    foldl_renumber ρ _ (bindFunction_renumber hu), pop_renumber]

theorem zipIdx_map_fst {α β : Type} (f : α → β) (as : List α) :
    (as.map f).zipIdx = as.zipIdx.map fun a => (f a.1, a.2) := by
  rw [List.zipIdx_map]
  rfl

/-- A module with other numbers has the same faults, and the same references at other numbers. -/
theorem bindModule_renumber (hu : cx'.unboundCause? = cx.unboundCause?)
    (hp : cx'.module.path = cx.module.path) (hd : cx'.module.decls = cx.module.decls.renumber ρ)
    (scopes : ScopeStack Binding) :
    bindModule cx' scopes = (bindModule cx scopes).renumber ρ := by
  have hc (b : Binder) :
      cx'.module.decls.classes.zipIdx.foldl (fun b c => bindClass cx' b c.2 c.1) (b.renumber ρ) =
        (cx.module.decls.classes.zipIdx.foldl (fun b c => bindClass cx b c.2 c.1) b).renumber ρ := by
    rw [hd, Declarations.renumber, zipIdx_map_fst]
    refine foldl_renumber ρ b (fun b c => ?_) _
    exact bindClass_renumber hu hp b c.2 c.1
  have hf (b : Binder) : cx'.module.decls.functions.foldl (bindFunction cx') (b.renumber ρ) =
      (cx.module.decls.functions.foldl (bindFunction cx) b).renumber ρ := by
    rw [hd]
    exact foldl_renumber ρ b (bindFunction_renumber hu) _
  have hs : ({ scopes } : Binder).renumber ρ = { scopes } := by
    simp [renumber]
  unfold bindModule
  simp only
  rw [← pop_renumber, ← hf, ← hc, hs]

end Walk

/-! ### The names of a module -/

@[simp] theorem ClassDecl.outline_renumber (ρ : Nat → Nat) (c : ClassDecl) :
    (c.renumber ρ).outline = c.outline := by
  simp only [outline, renumber, List.map_map]
  rfl

/-- The numbers of expressions do not show in the outline. -/
@[simp] theorem Module.outline_renumber (ρ : Nat → Nat) (m : Module) :
    (m.renumber ρ).outline = m.outline := by
  have hc : (m.decls.classes.map (·.renumber ρ)).map ClassDecl.outline =
      m.decls.classes.map ClassDecl.outline := by
    rw [List.map_map]
    exact List.map_congr_left fun c _ => c.outline_renumber ρ
  have hf : (m.decls.functions.map (·.renumber ρ)).map FunctionDecl.outline =
      m.decls.functions.map FunctionDecl.outline := by
    rw [List.map_map]
    rfl
  simp only [outline, renumber, Declarations.renumber, Declarations.outline, hc, hf]

namespace Registry.Alike

variable {r r' : Registry} {ρ : Nat → Nat}

theorem rootScope (h : r.Alike r') (m : Module) :
    r'.rootScope (m.renumber ρ) = r.rootScope m := by
  have hn : r'.rootNames (m.renumber ρ) = r.rootNames m := h.rootNames rfl (m.outline_renumber ρ)
  unfold Registry.rootScope
  rw [hn]
  rfl

theorem unboundCause? (h : r.Alike r') (m : Module) :
    NameContext.unboundCause? ⟨r', m.renumber ρ⟩ = NameContext.unboundCause? ⟨r, m⟩ := by
  funext name usage
  have hp : r'.privateOwner? (m.renumber ρ) name = r.privateOwner? m name :=
    h.privateOwner? rfl name
  simp only [NameContext.unboundCause?, hp]
  rfl

/-- In registries that look alike, a module with other numbers has the same names. -/
theorem names (h : r.Alike r') {path : String}
    (hm : r'.find? path = (r.find? path).map (Module.renumber ρ)) :
    r'.names path = (r.names path).renumber ρ := by
  unfold Registry.names
  rw [hm]
  cases r.find? path with
  | none => simp [Names.renumber]
  | some m =>
    have hb := bindModule_renumber (h.unboundCause? (ρ := ρ) m) rfl rfl (r.rootScope m)
    simp only [Option.map_some, h.rootScope, hb]
    rfl

end Registry.Alike

end MgLang
