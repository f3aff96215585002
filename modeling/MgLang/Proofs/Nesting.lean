import Mathlib.Logic.Function.Basic
import MgLang.Compilation
import MgLang.Proofs.Lexical
/-!
# Scopes open as deep as the source nests

`Expr.nesting` and its companions count the constructs with a scope of their own around the deepest
place of a tree: classes, functions, anonymous functions, blocks, `for` and the arms of a `match`.

The main statement is `names_depth`: the walk over a module closes every scope that it opens, is at
its deepest one scope deeper than the module nests, and leaves the open scopes as they were, up to
the one name that a `let` binds in the innermost one. The invariant of every step is
`Binder.Descends`.
-/

namespace MgLang

/-- The greatest value of `f` on a list. -/
def greatest {α : Type} (f : α → Nat) (xs : List α) : Nat :=
  xs.foldr (fun x => max (f x)) 0

mutual

/-- The greatest number of scopes around a place in an expression. -/
def Expr.nesting : Expr → Nat
  | .int _ _ | .float _ _ | .string _ _ | .bool _ _ | .ident _ _ | .this _ | .noneLit _ => 0
  | .interpolated _ parts => partsNesting parts
  | .someOf _ inner => inner.nesting
  | .binary _ _ left right => max left.nesting right.nesting
  | .unary _ _ operand => operand.nesting
  | .assign _ target value => max target.nesting value.nesting
  | .call _ callee args => max callee.nesting (exprsNesting args)
  | .member _ object _ _ => object.nesting
  | .index _ object index => max object.nesting index.nesting
  | .new _ _ _ args => exprsNesting args
  | .array _ items => exprsNesting items
  | .lambda _ _ _ body => 1 + body.nesting

/-- The greatest number of scopes around a place in expressions that stand side by side. -/
def exprsNesting : List Expr → Nat
  | [] => 0
  | e :: es => max e.nesting (exprsNesting es)

/-- The greatest number of scopes around a place in the holes of an interpolated string. -/
def partsNesting : List Part → Nat
  | [] => 0
  | .text _ :: parts => partsNesting parts
  | .hole e :: parts => max e.nesting (partsNesting parts)

/-- The greatest number of scopes around a place in a statement. -/
def Stmt.nesting : Stmt → Nat
  | .letStmt _ _ _ value _ _ => value.nesting
  | .returnStmt none _ => 0
  | .returnStmt (some value) _ => value.nesting
  | .ifStmt condition body none _ => max condition.nesting body.nesting
  | .ifStmt condition body (some otherwise) _ =>
    max (max condition.nesting body.nesting) otherwise.nesting
  | .whileStmt condition body _ => max condition.nesting body.nesting
  | .forStmt _ _ iterable body _ => max iterable.nesting (1 + body.nesting)
  | .matchStmt scrutinee arms _ => max scrutinee.nesting (armsNesting arms)
  | .block body => body.nesting
  | .expr value => value.nesting

/-- The greatest number of scopes around a place in the statements of a block. -/
def stmtsNesting : List Stmt → Nat
  | [] => 0
  | stmt :: stmts => max stmt.nesting (stmtsNesting stmts)

/-- The greatest number of scopes around a place in a block, with that of the block. -/
def Block.nesting : Block → Nat
  | ⟨stmts, _⟩ => 1 + stmtsNesting stmts

/-- The greatest number of scopes around a place in arms, with those of the arms. -/
def armsNesting : List Arm → Nat
  | [] => 0
  | ⟨_, body, _⟩ :: arms => max (1 + body.nesting) (armsNesting arms)

end

/-- The greatest number of scopes around a place in a function, with that of its parameters. -/
def FunctionDecl.nesting (f : FunctionDecl) : Nat :=
  1 + f.body.nesting

/-- The greatest number of scopes around a place in a class, with that of its members. -/
def ClassDecl.nesting (c : ClassDecl) : Nat :=
  1 + max (exprsNesting c.initials) (greatest FunctionDecl.nesting c.methods)

/-- The greatest number of scopes around a place in a module, without that of the module itself. -/
def Module.nesting (m : Module) : Nat :=
  max (greatest ClassDecl.nesting m.decls.classes)
    (greatest FunctionDecl.nesting m.decls.functions)

namespace ScopeStack

variable {α : Type}

/-- What each open scope says of each name, the innermost first. -/
def view (s : ScopeStack α) : List (String → Option α) :=
  s.frames.map fun frame name => frame.lookup name

/-- A declaration changes what the innermost scope says of its name, and nothing else. -/
theorem view_of_frames {s s' : ScopeStack α} {name : String} {value : α}
    (h : s'.frames = onto [(name, value)] s.frames) :
    s'.view = s.view.modifyHead (Function.update · name (some value)) := by
  unfold view
  rw [h]
  cases s.frames with
  | nil => rfl
  | cons frame outer =>
    simp only [onto, List.map_cons, List.modifyHead_cons, List.cons.injEq, and_true]
    funext x
    by_cases hx : x = name <;> simp [Keyed.lookup_cons, hx]

end ScopeStack

namespace Binder

open ScopeStack (onto)

/-- The walk has declared `ds` in the innermost scope, and has been `k` scopes deeper on its way. -/
structure Descends (b b' : Binder) (ds : Env) (k : Nat) : Prop where
  frames : b'.scopes.frames = onto ds b.scopes.frames
  imports : b'.scopes.imports = b.scopes.imports
  /-- How deep the scopes have been is right afterwards if it was before. -/
  maxDepth : b.scopes.depth ≤ b.scopes.maxDepth →
    b'.scopes.maxDepth = max b.scopes.maxDepth (b.scopes.depth + k)

variable {b b' b'' : Binder} {ds ds' : Env} {k k' : Nat}

/-- Nothing is opened or declared where the scopes stay the same. -/
theorem Descends.of_scopes (h : b'.scopes = b.scopes) : b.Descends b' [] 0 := by
  refine ⟨?_, by rw [h], fun hd => ?_⟩
  · rw [h, ScopeStack.onto_nil]
  · rw [h]
    omega

theorem Descends.depth (h : b.Descends b' ds k) : b'.scopes.depth = b.scopes.depth := by
  unfold ScopeStack.depth
  rw [h.frames]
  cases b.scopes.frames <;> rfl

theorem Descends.trans (h : b.Descends b' ds k) (h' : b'.Descends b'' ds' k') :
    b.Descends b'' (ds' ++ ds) (max k k') := by
  refine ⟨?_, h'.imports.trans h.imports, fun hd => ?_⟩
  · rw [h'.frames, h.frames, ScopeStack.onto_onto]
  · have hmax := h.maxDepth hd
    have hdepth := h.depth
    have hmax' := h'.maxDepth (by omega)
    omega

theorem Descends.declare (b : Binder) (name : String) (binding : Binding) :
    b.Descends (b.declare name binding) [(name, binding)] 0 := by
  refine ⟨ScopeStack.frames_declare _ _ _, ScopeStack.imports_declare _ _ _, fun hd => ?_⟩
  refine (ScopeStack.maxDepth_declare _ _ _).trans ?_
  omega

/-- Declarations one after the other, of which the last comes to stand first. -/
theorem Descends.foldl_declare {β : Type} (f : β → String × Binding) (xs : List β) (b : Binder) :
    ∃ ds, b.Descends (xs.foldl (fun b x => b.declare (f x).1 (f x).2) b) ds 0 := by
  induction xs generalizing b with
  | nil => exact ⟨[], .of_scopes rfl⟩
  | cons x xs ih =>
    obtain ⟨ds, h⟩ := ih (b.declare (f x).1 (f x).2)
    exact ⟨_, (Descends.declare b _ _).trans h⟩

theorem Descends.declareParams (b : Binder) (params : List Param) :
    ∃ ds, b.Descends (b.declareParams params) ds 0 :=
  Descends.foldl_declare (fun p : Param => (p.name, .variable p.name p.span)) params b

/-- What happens after declarations happens as deep as without them. -/
theorem Descends.after (h : b.Descends b' ds 0) (h' : b'.Descends b'' ds' k) :
    b.Descends b'' (ds' ++ ds) k := by
  have ht := h.trans h'
  rwa [Nat.zero_max] at ht

/-- What happens in a scope of its own is one deeper, and its declarations are gone afterwards. -/
theorem Descends.scope (h : b.push.Descends b' ds k) : b.Descends b'.pop [] (1 + k) := by
  refine ⟨?_, h.imports, fun hd => ?_⟩
  · show b'.scopes.frames.tail = _
    rw [h.frames, ScopeStack.tail_onto, ScopeStack.onto_nil]
    rfl
  · have hdepth : b.push.scopes.depth = b.scopes.depth + 1 := rfl
    have hpush : b.push.scopes.maxDepth = max b.scopes.maxDepth (b.scopes.depth + 1) := rfl
    have hmax := h.maxDepth (by omega)
    show b'.scopes.maxDepth = _
    omega

/-- A walk over a list that declares nothing at any step. -/
theorem Descends.foldl {β : Type} {f : Binder → β → Binder} {g : β → Nat}
    (hf : ∀ x b, Descends b (f b x) [] (g x)) (xs : List β) (b : Binder) :
    b.Descends (xs.foldl f b) [] (greatest g xs) := by
  induction xs generalizing b with
  | nil => exact .of_scopes rfl
  | cons x xs ih => exact (hf x b).trans (ih _)

end Binder

/-! ### The walk descends as deep as the source nests -/

open Binder

theorem scopes_bindIdent (cx : NameContext) (b : Binder) (node : Node) (name : String)
    (usage : Usage) : (bindIdent cx b node name usage).scopes = b.scopes := by
  unfold bindIdent
  split
  · rfl
  · split <;> rfl

mutual

/-- Binding the names in an expression leaves the open scopes as they were. -/
theorem bindExpr_descends (cx : NameContext) : ∀ (e : Expr) (b : Binder) (usage : Usage),
    b.Descends (bindExpr cx b usage e) [] e.nesting
  | .int _ _, _, _ | .float _ _, _, _ | .string _ _, _, _ | .bool _ _, _, _ | .this _, _, _
  | .noneLit _, _, _ => .of_scopes rfl
  | .ident _ _, _, _ => .of_scopes (scopes_bindIdent ..)
  | .interpolated _ parts, b, _ => bindParts_descends cx parts b
  | .someOf _ inner, b, _ => bindExpr_descends cx inner b .value
  | .binary _ _ left right, b, _ =>
    (bindExpr_descends cx left b .value).trans (bindExpr_descends cx right _ .value)
  | .unary _ _ operand, b, _ => bindExpr_descends cx operand b .value
  | .assign _ target value, b, _ =>
    (bindExpr_descends cx target b .value).trans (bindExpr_descends cx value _ .value)
  | .call _ callee args, b, _ =>
    (bindExpr_descends cx callee b .callee).trans (bindExprs_descends cx args _)
  | .member _ object _ _, b, _ => bindExpr_descends cx object b .receiver
  | .index _ object index, b, _ =>
    (bindExpr_descends cx object b .value).trans (bindExpr_descends cx index _ .value)
  | .new _ _ _ args, b, _ => by
    -- What is recorded for the class leaves the scopes alone.
    refine Descends.after (.of_scopes ?_) (bindExprs_descends cx args _)
    split <;> rfl
  | .array _ items, b, _ => bindExprs_descends cx items b
  | .lambda _ params _ body, b, _ => by
    obtain ⟨ds, hp⟩ := Descends.declareParams b.push params
    exact (hp.after (bindBlock_descends cx body _)).scope

theorem bindExprs_descends (cx : NameContext) : ∀ (es : List Expr) (b : Binder),
    b.Descends (bindExprs cx b es) [] (exprsNesting es)
  | [], _ => .of_scopes rfl
  | e :: es, b => (bindExpr_descends cx e b .value).trans (bindExprs_descends cx es _)

theorem bindParts_descends (cx : NameContext) : ∀ (ps : List Part) (b : Binder),
    b.Descends (bindParts cx b ps) [] (partsNesting ps)
  | [], _ => .of_scopes rfl
  | .text _ :: ps, b => bindParts_descends cx ps b
  | .hole e :: ps, b => (bindExpr_descends cx e b .value).trans (bindParts_descends cx ps _)

/-- Binding the names in a statement adds to the innermost scope what the statement declares. -/
theorem bindStmt_descends (cx : NameContext) : ∀ (s : Stmt) (b : Binder),
    b.Descends (bindStmt cx b s) s.declares s.nesting
  | .letStmt name _ _ value nameSpan _, b => by
    have hd := Descends.declare (bindExpr cx b .value value) name (.variable name nameSpan)
    have h := (bindExpr_descends cx value b .value).trans hd
    rwa [Nat.max_zero] at h
  | .returnStmt none _, _ => .of_scopes rfl
  | .returnStmt (some value) _, b => bindExpr_descends cx value b .value
  | .ifStmt condition body none _, b =>
    (bindExpr_descends cx condition b .value).trans (bindBlock_descends cx body _)
  | .ifStmt condition body (some otherwise) _, b => by
    have hc := bindExpr_descends cx condition b .value
    have h := (hc.trans (bindBlock_descends cx body _)).trans (bindStmt_descends cx otherwise _)
    rwa [List.append_nil, List.append_nil] at h
  | .whileStmt condition body _, b =>
    (bindExpr_descends cx condition b .value).trans (bindBlock_descends cx body _)
  | .forStmt name nameSpan iterable body _, b => by
    have hd := Descends.declare (bindExpr cx b .value iterable).push name (.variable name nameSpan)
    have hb := hd.after (bindBlock_descends cx body _)
    exact (bindExpr_descends cx iterable b .value).trans hb.scope
  | .matchStmt scrutinee arms _, b =>
    (bindExpr_descends cx scrutinee b .value).trans (bindArms_descends cx arms _)
  | .block body, b => bindBlock_descends cx body b
  | .expr value, b => bindExpr_descends cx value b .value

theorem bindStmts_descends (cx : NameContext) : ∀ (ss : List Stmt) (b : Binder),
    ∃ ds, b.Descends (bindStmts cx b ss) ds (stmtsNesting ss)
  | [], _ => ⟨[], .of_scopes rfl⟩
  | s :: ss, b => by
    obtain ⟨ds, h⟩ := bindStmts_descends cx ss (bindStmt cx b s)
    exact ⟨_, (bindStmt_descends cx s b).trans h⟩

/-- Nothing that is declared in a block is left when the block is closed. -/
theorem bindBlock_descends (cx : NameContext) : ∀ (body : Block) (b : Binder),
    b.Descends (bindBlock cx b body) [] body.nesting
  | ⟨stmts, _⟩, b => by
    obtain ⟨ds, h⟩ := bindStmts_descends cx stmts b.push
    exact h.scope

theorem bindArms_descends (cx : NameContext) : ∀ (arms : List Arm) (b : Binder),
    b.Descends (bindArms cx b arms) [] (armsNesting arms)
  | [], _ => .of_scopes rfl
  | ⟨.some name span, body, _⟩ :: arms, b => by
    have hb := (Descends.declare b.push name (.variable name span)).after
      (bindBlock_descends cx body _)
    exact hb.scope.trans (bindArms_descends cx arms _)
  | ⟨.none, body, _⟩ :: arms, b | ⟨.wildcard, body, _⟩ :: arms, b =>
    (bindBlock_descends cx body b.push).scope.trans (bindArms_descends cx arms _)

end

theorem bindFunction_descends (cx : NameContext) (f : FunctionDecl) (b : Binder) :
    b.Descends (bindFunction cx b f) [] f.nesting := by
  obtain ⟨ds, hp⟩ := Descends.declareParams b.push f.params
  exact (hp.after (bindBlock_descends cx f.body _)).scope

theorem bindClass_descends (cx : NameContext) (idx : Nat) (c : ClassDecl) (b : Binder) :
    b.Descends (bindClass cx b idx c) [] c.nesting := by
  obtain ⟨ds, hd⟩ := Descends.foldl_declare
    (fun name => (name, Binding.member cx.module.path idx name)) c.memberNames b.push
  have hi := bindExprs_descends cx c.initials
  have hm := Descends.foldl (bindFunction_descends cx) c.methods
  exact (hd.after ((hi _).trans (hm _))).scope

theorem greatest_zipIdx {α : Type} (f : α → Nat) (xs : List α) (n : Nat) :
    greatest (fun x => f x.1) (xs.zipIdx n) = greatest f xs := by
  induction xs generalizing n with
  | nil => rfl
  | cons x xs ih => exact congrArg (max (f x)) (ih (n + 1))

theorem bindModule_descends (cx : NameContext) (scopes : ScopeStack Binding) :
    ∃ b, Descends { scopes } b [] cx.module.nesting ∧ bindModule cx scopes = b.pop := by
  have hc := Descends.foldl (fun x b => bindClass_descends cx x.2 x.1 b)
    cx.module.decls.classes.zipIdx { scopes }
  have hf := Descends.foldl (bindFunction_descends cx) cx.module.decls.functions
  rw [greatest_zipIdx] at hc
  exact ⟨_, hc.trans (hf _), rfl⟩

/-- The scope of a module is the only one that is open before the walk, and the deepest so far. -/
theorem rootScope_depth (r : Registry) (m : Module) :
    (r.rootScope m).depth = 1 ∧ (r.rootScope m).maxDepth = 1 := by
  suffices h : ∀ (ds : List (String × Binding)) (s : ScopeStack Binding),
      (ds.foldl (fun s d => s.declare d.1 d.2) s).depth = s.depth ∧
        (ds.foldl (fun s d => s.declare d.1 d.2) s).maxDepth = s.maxDepth from h _ _
  intro ds
  induction ds with
  | nil => simp
  | cons d ds ih => simp [ih]

/-- A statement declares nothing, or one variable. -/
theorem Stmt.declares_eq : ∀ s : Stmt,
    s.declares = [] ∨ ∃ name span, s.declares = [(name, .variable name span)]
  | .letStmt name _ _ _ nameSpan _ => .inr ⟨name, nameSpan, rfl⟩
  | .ifStmt _ _ (some otherwise) _ => otherwise.declares_eq
  | .ifStmt _ _ none _ | .returnStmt _ _ | .whileStmt _ _ _ | .forStmt _ _ _ _ _
  | .matchStmt _ _ _ | .block _ | .expr _ => .inl rfl

/-- **Scopes are open as deep as the source nests.** The walk over a module leaves no scope open,
and has at most one more open than there are around the deepest place of the module. Expressions
and blocks leave the open scopes as they were, and so do the statements that declare nothing. The
others declare one variable in the innermost scope, in place of what it had under that name. -/
theorem names_depth {r : Registry} {path : String} {m : Module} (hm : r.find? path = some m) :
    (r.names path).finalDepth = 0 ∧ (r.names path).maxDepth = 1 + m.nesting ∧
      ∀ (cx : NameContext) (b : Binder),
        (∀ e usage, b.Descends (bindExpr cx b usage e) [] e.nesting) ∧
        (∀ body, b.Descends (bindBlock cx b body) [] body.nesting) ∧
        ∀ s, b.Descends (bindStmt cx b s) s.declares s.nesting ∧
          (s.declares = [] ∧ (bindStmt cx b s).scopes.frames = b.scopes.frames ∨
            ∃ name span, s.declares = [(name, .variable name span)] ∧
              (bindStmt cx b s).scopes.view =
                b.scopes.view.modifyHead
                  (Function.update · name (some (.variable name span)))) := by
  have hnames : (r.names path).finalDepth = (bindModule ⟨r, m⟩ (r.rootScope m)).scopes.depth ∧
      (r.names path).maxDepth = (bindModule ⟨r, m⟩ (r.rootScope m)).scopes.maxDepth := by
    simp [Registry.names, hm]
  obtain ⟨b, hb, hpop⟩ := bindModule_descends ⟨r, m⟩ (r.rootScope m)
  obtain ⟨hdepth, hmax⟩ := rootScope_depth r m
  rw [hnames.1, hnames.2, hpop]
  refine ⟨?_, ?_, fun cx b => ⟨fun e => bindExpr_descends cx e b,
    fun body => bindBlock_descends cx body b, fun s => ⟨bindStmt_descends cx s b, ?_⟩⟩⟩
  · refine (ScopeStack.depth_pop _).trans ?_
    rw [hb.depth, hdepth]
  · refine (hb.maxDepth (Nat.le_of_eq (hdepth.trans hmax.symm))).trans ?_
    rw [hdepth, hmax]
    exact Nat.max_eq_right (Nat.le_add_right 1 m.nesting)
  · have hs := (bindStmt_descends cx s b).frames
    rcases s.declares_eq with h | ⟨name, span, h⟩
    · rw [h, ScopeStack.onto_nil] at hs
      exact .inl ⟨h, hs⟩
    · rw [h] at hs
      exact .inr ⟨name, span, h, ScopeStack.view_of_frames hs⟩

/-- A `for` in an anonymous function in a field, and a `while` in a function. -/
def nested : Compilation :=
  ({ registry := .empty } : Compilation).add "main.mg"
    "class C \x7b f: C = fn() \x7b for (i in f) \x7b i; \x7d \x7d; \x7d
     fn g() \x7b while (g) \x7b \x7d \x7d" (.root "app")

theorem nested_run :
    ((nested.registry.find? "main").map fun m =>
      (m.nesting, m.decls.functions.map (·.nesting))) = some (5, [3]) := by
  decide +kernel

/-- The deepest place is in the class, the anonymous function and its body, the `for` and its
body. -/
theorem names_depth_nested :
    (nested.registry.find? "main").isSome ∧ (nested.registry.names "main").finalDepth = 0 ∧
      (nested.registry.names "main").maxDepth = 6 := by
  obtain ⟨m, hm, hrun⟩ := Option.map_eq_some_iff.1 nested_run
  obtain ⟨hfinal, hmax, -⟩ := names_depth hm
  have hnesting : m.nesting = 5 := congrArg Prod.fst hrun
  exact ⟨Option.isSome_of_eq_some hm, hfinal, by rw [hmax, hnesting]⟩

end MgLang
