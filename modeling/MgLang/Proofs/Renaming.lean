import Mathlib.Data.List.Nodup
import MgLang.Navigation
import MgLang.Proofs.Locals
import MgLang.Proofs.NamesAlike
/-!
# Renaming a variable

A variable gets another name where it is declared, and so do the expressions that refer to it
(`Expr.rename` and its companions). If the new name has not been in use, every name refers to what
it referred to, up to the new name, with one exception. The class of a new instance is looked up
among the variables too, and a variable of that name hides it (`Renaming.Hides`): no reference is
recorded then, and once the variable has another name there is one.

An expression stands in the renamed module where it stood before, in an environment in which the
variable has its new name (`sites_rename`). From this and from look-ups in such an environment
(`lookup_rename`, `lookup_rename_none`) it follows what becomes of each site
(`reference?_rename`, `reference?_of_hides`, `fault?_rename`).

The main statement is `names_rename`.
-/

namespace MgLang

/-- A variable, where it is declared, gets a new name. So do expressions with some numbers, which
are to be those that refer to it. -/
structure Renaming where
  old : String
  new : String
  span : Span
  uses : List Nat

namespace Renaming

variable (ρ : Renaming)

/-- The binding of the variable before it is renamed. -/
def target : Binding :=
  .variable ρ.old ρ.span

/-- The name of what is declared at a place. -/
def declared (name : String) (span : Span) : String :=
  if name = ρ.old ∧ span = ρ.span then ρ.new else name

/-- The name in an identifier. -/
def used (node : Nat) (name : String) : String :=
  if node ∈ ρ.uses then ρ.new else name

/-- What a binding becomes. -/
def binding (b : Binding) : Binding :=
  if b = ρ.target then .variable ρ.new ρ.span else b

/-- What becomes of an entry in an environment. -/
def entry (d : String × Binding) : String × Binding :=
  (if d.2 = ρ.target then ρ.new else d.1, ρ.binding d.2)

/-- What becomes of a reference. -/
def reference (ref : Reference) : Reference :=
  { ref with
    name := if ref.binding = ρ.target then ρ.new else ref.name
    binding := ρ.binding ref.binding }

end Renaming

/-! ### Trees -/

/-- The parameter, renamed. -/
def Param.rename (ρ : Renaming) (p : Param) : Param :=
  { p with name := ρ.declared p.name p.span }

/-- The pattern, with its name renamed. -/
def ArmPattern.rename (ρ : Renaming) : ArmPattern → ArmPattern
  | .some name span => .some (ρ.declared name span) span
  | .none => .none
  | .wildcard => .wildcard

mutual

/-- The expression after a renaming. -/
def Expr.rename (ρ : Renaming) : Expr → Expr
  | .int node value => .int node value
  | .float node numeral => .float node numeral
  | .string node value => .string node value
  | .bool node value => .bool node value
  | .interpolated node parts => .interpolated node (renameParts ρ parts)
  | .ident node name => .ident node (ρ.used node.id name)
  | .this node => .this node
  | .noneLit node => .noneLit node
  | .someOf node inner => .someOf node (inner.rename ρ)
  | .binary node op left right => .binary node op (left.rename ρ) (right.rename ρ)
  | .unary node op operand => .unary node op (operand.rename ρ)
  | .assign node target value => .assign node (target.rename ρ) (value.rename ρ)
  | .call node callee args => .call node (callee.rename ρ) (renameExprs ρ args)
  | .member node object name nameSpan => .member node (object.rename ρ) name nameSpan
  | .index node object place => .index node (object.rename ρ) (place.rename ρ)
  | .new node className classSpan args => .new node className classSpan (renameExprs ρ args)
  | .array node items => .array node (renameExprs ρ items)
  | .lambda node params ret body =>
    .lambda node (params.map (·.rename ρ)) ret (body.rename ρ)

/-- The expressions after a renaming. -/
def renameExprs (ρ : Renaming) : List Expr → List Expr
  | [] => []
  | e :: es => e.rename ρ :: renameExprs ρ es

/-- The pieces of an interpolated string after a renaming. -/
def renameParts (ρ : Renaming) : List Part → List Part
  | [] => []
  | .text value :: parts => .text value :: renameParts ρ parts
  | .hole e :: parts => .hole (e.rename ρ) :: renameParts ρ parts

/-- The statement after a renaming. -/
def Stmt.rename (ρ : Renaming) : Stmt → Stmt
  | .letStmt name mutable ty value nameSpan span =>
    .letStmt (ρ.declared name nameSpan) mutable ty (value.rename ρ) nameSpan span
  | .returnStmt none span => .returnStmt none span
  | .returnStmt (some value) span => .returnStmt (some (value.rename ρ)) span
  | .ifStmt condition body none span => .ifStmt (condition.rename ρ) (body.rename ρ) none span
  | .ifStmt condition body (some otherwise) span =>
    .ifStmt (condition.rename ρ) (body.rename ρ) (some (otherwise.rename ρ)) span
  | .whileStmt condition body span => .whileStmt (condition.rename ρ) (body.rename ρ) span
  | .forStmt name nameSpan iterable body span =>
    .forStmt (ρ.declared name nameSpan) nameSpan (iterable.rename ρ) (body.rename ρ) span
  | .matchStmt scrutinee arms span => .matchStmt (scrutinee.rename ρ) (renameArms ρ arms) span
  | .block body => .block (body.rename ρ)
  | .expr value => .expr (value.rename ρ)

/-- The statements after a renaming. -/
def renameStmts (ρ : Renaming) : List Stmt → List Stmt
  | [] => []
  | stmt :: stmts => stmt.rename ρ :: renameStmts ρ stmts

/-- The block after a renaming. -/
def Block.rename (ρ : Renaming) : Block → Block
  | ⟨stmts, span⟩ => ⟨renameStmts ρ stmts, span⟩

/-- The arms after a renaming. -/
def renameArms (ρ : Renaming) : List Arm → List Arm
  | [] => []
  | ⟨pattern, body, span⟩ :: arms =>
    ⟨pattern.rename ρ, body.rename ρ, span⟩ :: renameArms ρ arms

end

/-- The function after a renaming. -/
def FunctionDecl.rename (ρ : Renaming) (f : FunctionDecl) : FunctionDecl :=
  { f with params := f.params.map (·.rename ρ), body := f.body.rename ρ }

/-- The field after a renaming. -/
def FieldDecl.rename (ρ : Renaming) (f : FieldDecl) : FieldDecl :=
  { f with initial := f.initial.map (·.rename ρ) }

/-- The class after a renaming. -/
def ClassDecl.rename (ρ : Renaming) (c : ClassDecl) : ClassDecl :=
  { c with fields := c.fields.map (·.rename ρ), methods := c.methods.map (·.rename ρ) }

/-- The declarations after a renaming. -/
def Declarations.rename (ρ : Renaming) (d : Declarations) : Declarations :=
  { d with functions := d.functions.map (·.rename ρ), classes := d.classes.map (·.rename ρ) }

theorem Declarations.symbols_rename (ρ : Renaming) (d : Declarations) (path : String)
    (package : Package) : (d.rename ρ).symbols path package = d.symbols path package := by
  simp only [symbols, functionSymbols, classSymbols, rename, List.zipIdx_map, List.map_map]
  rfl

/-- The module after a renaming. No symbol is a variable. -/
def Module.rename (ρ : Renaming) (m : Module) : Module :=
  { m with
    decls := m.decls.rename ρ
    symbols_eq := m.symbols_eq.trans (m.decls.symbols_rename ρ m.path m.package).symm }

/-- The registry after a renaming in the module at a path. -/
def Registry.rename (r : Registry) (path : String) (ρ : Renaming) : Registry :=
  r.modify path (·.rename ρ) fun _ => rfl

/-! ### What stays -/

section

variable (ρ : Renaming)

@[simp] theorem Expr.node_rename (e : Expr) : (e.rename ρ).node = e.node := by
  cases e <;> rfl

@[simp] theorem Expr.span_rename (e : Expr) : (e.rename ρ).span = e.span := by
  rw [span, node_rename]
  rfl

@[simp] theorem Expr.id_rename (e : Expr) : (e.rename ρ).id = e.id := by
  rw [id, node_rename]
  rfl

@[simp] theorem length_renameExprs (es : List Expr) : (renameExprs ρ es).length = es.length := by
  induction es with
  | nil => rfl
  | cons e es ih => rw [renameExprs, List.length_cons, List.length_cons, ih]

theorem renameExprs_eq_map (es : List Expr) : renameExprs ρ es = es.map (·.rename ρ) := by
  induction es with
  | nil => rfl
  | cons e es ih => rw [renameExprs, List.map_cons, ih]

/-- The names of parameters do not show in the outline. -/
@[simp] theorem FunctionDecl.outline_rename (f : FunctionDecl) :
    (f.rename ρ).outline = f.outline := by
  simp only [outline, rename, List.map_map]
  rfl

@[simp] theorem ClassDecl.outline_rename (c : ClassDecl) : (c.rename ρ).outline = c.outline := by
  have hm : (c.methods.map (·.rename ρ)).map FunctionDecl.outline =
      c.methods.map FunctionDecl.outline := by
    rw [List.map_map]
    exact List.map_congr_left fun f _ => f.outline_rename ρ
  simp only [outline, rename, List.map_map, ← hm]
  rfl

@[simp] theorem Module.outline_rename (m : Module) : (m.rename ρ).outline = m.outline := by
  have hc : (m.decls.classes.map (·.rename ρ)).map ClassDecl.outline =
      m.decls.classes.map ClassDecl.outline := by
    rw [List.map_map]
    exact List.map_congr_left fun c _ => c.outline_rename ρ
  have hf : (m.decls.functions.map (·.rename ρ)).map FunctionDecl.outline =
      m.decls.functions.map FunctionDecl.outline := by
    rw [List.map_map]
    exact List.map_congr_left fun f _ => f.outline_rename ρ
  simp only [outline, rename, Declarations.rename, Declarations.outline, hc, hf]

theorem Registry.find?_rename (r : Registry) (path q : String) :
    (r.rename path ρ).find? q =
      if q = path then (r.find? q).map (Module.rename ρ) else r.find? q :=
  find?_modify _ _ _ _ _

theorem Registry.alike_rename (r : Registry) (path : String) : r.Alike (r.rename path ρ) := by
  intro q
  rw [find?_rename]
  split
  · rw [Option.map_map]
    exact congrArg (Option.map · _) (funext (Module.outline_rename ρ))
  · rfl

end

/-! ### Environments -/

namespace Renaming

variable {ρ : Renaming}

theorem entry_variable (name : String) (span : Span) :
    ρ.entry (name, .variable name span) =
      (ρ.declared name span, .variable (ρ.declared name span) span) := by
  unfold entry binding declared target
  by_cases h : name = ρ.old ∧ span = ρ.span
  · obtain ⟨rfl, rfl⟩ := h
    simp
  · have hne : ¬ Binding.variable name span = .variable ρ.old ρ.span := by simpa using h
    simp only [if_neg h, if_neg hne]

/-- What is no variable stays as it is. -/
theorem map_entry_global {env : Env} (h : env.Global) : env.map ρ.entry = env := by
  refine (List.map_congr_left fun d hd => ?_).trans (List.map_id env)
  have hd : d.2 ≠ ρ.target := h d hd ρ.old ρ.span
  unfold entry binding
  rw [if_neg hd, if_neg hd]
  rfl

theorem paramEnv_rename (params : List Param) :
    paramEnv (params.map (·.rename ρ)) = (paramEnv params).map ρ.entry := by
  unfold paramEnv
  rw [List.map_reverse, List.map_map, List.map_map]
  refine congrArg List.reverse (List.map_congr_left fun p _ => ?_)
  exact (ρ.entry_variable p.name p.span).symm

theorem declares_pattern (p : ArmPattern) : (p.rename ρ).declares = p.declares.map ρ.entry := by
  cases p with
  | some name span => exact congrArg ([·]) (ρ.entry_variable name span).symm
  | none => rfl
  | wildcard => rfl

theorem declares_stmt : ∀ stmt : Stmt, (stmt.rename ρ).declares = stmt.declares.map ρ.entry
  | .letStmt name _ _ _ nameSpan _ => congrArg ([·]) (ρ.entry_variable name nameSpan).symm
  | .ifStmt _ _ (some otherwise) _ => declares_stmt otherwise
  | .returnStmt none _ | .returnStmt (some _) _ | .ifStmt _ _ none _ | .whileStmt _ _ _
  | .forStmt _ _ _ _ _ | .matchStmt _ _ _ | .block _ | .expr _ => rfl

/-- What a site becomes. -/
def site (ρ : Renaming) (s : Site) : Site :=
  ⟨s.expr.rename ρ, s.usage, s.env.map ρ.entry⟩

end Renaming

/-! ### Sites -/

section

variable {ρ : Renaming}

open Renaming

mutual

theorem sites_rename : ∀ (e : Expr) (env : Env) (usage : Usage),
    (e.rename ρ).sites (env.map ρ.entry) usage = (e.sites env usage).map ρ.site
  | .int _ _, _, _ | .float _ _, _, _ | .string _ _, _, _ | .bool _ _, _, _ | .ident _ _, _, _
  | .this _, _, _ | .noneLit _, _, _ => rfl
  | .interpolated _ parts, env, _ => congrArg (_ :: ·) (partsSites_rename parts env)
  | .someOf _ inner, env, _ => congrArg (_ :: ·) (sites_rename inner env .value)
  | .binary _ _ left right, env, _ => by
    rw [Expr.rename, Expr.sites, Expr.sites, List.map_cons, List.map_append,
      sites_rename left env .value, sites_rename right env .value]
    rfl
  | .unary _ _ operand, env, _ => congrArg (_ :: ·) (sites_rename operand env .value)
  | .assign _ target value, env, _ => by
    rw [Expr.rename, Expr.sites, Expr.sites, List.map_cons, List.map_append,
      sites_rename target env .value, sites_rename value env .value]
    rfl
  | .call _ callee args, env, _ => by
    rw [Expr.rename, Expr.sites, Expr.sites, List.map_cons, List.map_append,
      sites_rename callee env .callee, exprsSites_rename args env]
    rfl
  | .member _ object _ _, env, _ => congrArg (_ :: ·) (sites_rename object env .receiver)
  | .index _ object place, env, _ => by
    rw [Expr.rename, Expr.sites, Expr.sites, List.map_cons, List.map_append,
      sites_rename object env .value, sites_rename place env .value]
    rfl
  | .new _ _ _ args, env, _ => congrArg (_ :: ·) (exprsSites_rename args env)
  | .array _ items, env, _ => congrArg (_ :: ·) (exprsSites_rename items env)
  | .lambda _ params _ body, env, _ => by
    refine congrArg (_ :: ·) ?_
    rw [paramEnv_rename, ← List.map_append]
    exact blockSites_rename body (paramEnv params ++ env)

theorem exprsSites_rename : ∀ (es : List Expr) (env : Env),
    exprsSites (env.map ρ.entry) (renameExprs ρ es) = (exprsSites env es).map ρ.site
  | [], _ => rfl
  | e :: es, env => by
    rw [renameExprs, exprsSites, exprsSites, List.map_append, sites_rename e env .value,
      exprsSites_rename es env]

theorem partsSites_rename : ∀ (parts : List Part) (env : Env),
    partsSites (env.map ρ.entry) (renameParts ρ parts) = (partsSites env parts).map ρ.site
  | [], _ => rfl
  | .text _ :: parts, env => partsSites_rename parts env
  | .hole e :: parts, env => by
    rw [renameParts, partsSites, partsSites, List.map_append, sites_rename e env .value,
      partsSites_rename parts env]

theorem stmtSites_rename : ∀ (stmt : Stmt) (env : Env),
    (stmt.rename ρ).sites (env.map ρ.entry) = (stmt.sites env).map ρ.site
  | .letStmt _ _ _ value _ _, env => sites_rename value env .value
  | .returnStmt none _, _ => rfl
  | .returnStmt (some value) _, env => sites_rename value env .value
  | .ifStmt condition body none _, env | .whileStmt condition body _, env => by
    rw [Stmt.rename, Stmt.sites, Stmt.sites, List.map_append, sites_rename condition env .value,
      blockSites_rename body env]
  | .ifStmt condition body (some otherwise) _, env => by
    rw [Stmt.rename, Stmt.sites, Stmt.sites, List.map_append, List.map_append,
      sites_rename condition env .value, blockSites_rename body env, stmtSites_rename otherwise env]
  | .forStmt name nameSpan iterable body _, env => by
    rw [Stmt.rename, Stmt.sites, Stmt.sites, List.map_append, sites_rename iterable env .value,
      ← entry_variable, ← List.map_cons, blockSites_rename body]
  | .matchStmt scrutinee arms _, env => by
    rw [Stmt.rename, Stmt.sites, Stmt.sites, List.map_append, sites_rename scrutinee env .value,
      armsSites_rename arms env]
  | .block body, env => blockSites_rename body env
  | .expr value, env => sites_rename value env .value

theorem stmtsSites_rename : ∀ (stmts : List Stmt) (env : Env),
    stmtsSites (env.map ρ.entry) (renameStmts ρ stmts) = (stmtsSites env stmts).map ρ.site
  | [], _ => rfl
  | stmt :: stmts, env => by
    rw [renameStmts, stmtsSites, stmtsSites, List.map_append, stmtSites_rename stmt env,
      declares_stmt, ← List.map_append, stmtsSites_rename stmts]

theorem blockSites_rename : ∀ (body : Block) (env : Env),
    (body.rename ρ).sites (env.map ρ.entry) = (body.sites env).map ρ.site
  | ⟨stmts, _⟩, env => stmtsSites_rename stmts env

theorem armsSites_rename : ∀ (arms : List Arm) (env : Env),
    armsSites (env.map ρ.entry) (renameArms ρ arms) = (armsSites env arms).map ρ.site
  | [], _ => rfl
  | ⟨pattern, body, _⟩ :: arms, env => by
    rw [renameArms, armsSites, armsSites, List.map_append, declares_pattern, ← List.map_append,
      blockSites_rename body, armsSites_rename arms env]

end

theorem functionSites_rename (f : FunctionDecl) (env : Env) :
    (f.rename ρ).sites (env.map ρ.entry) = (f.sites env).map ρ.site := by
  unfold FunctionDecl.sites
  rw [← blockSites_rename, List.map_append, ← paramEnv_rename]
  rfl

theorem filterMap_initial_rename (fields : List FieldDecl) :
    (fields.map (·.rename ρ)).filterMap (·.initial) =
      renameExprs ρ (fields.filterMap (·.initial)) := by
  rw [List.filterMap_map, renameExprs_eq_map, List.map_filterMap]
  rfl

theorem memberNames_rename (c : ClassDecl) : (c.rename ρ).memberNames = c.memberNames := by
  simp only [ClassDecl.memberNames, ClassDecl.rename, List.map_map]
  rfl

theorem classEnv_global (c : ClassDecl) (module : String) (idx : Nat) :
    (c.env module idx).Global := by
  intro d hd x span he
  obtain ⟨name, -, rfl⟩ := List.mem_map.1 (List.mem_reverse.1 hd)
  cases he

theorem classSites_rename (c : ClassDecl) {env : Env} (hg : env.Global) (module : String)
    (idx : Nat) : (c.rename ρ).sites env module idx = (c.sites env module idx).map ρ.site := by
  have hmap : (c.env module idx ++ env).map ρ.entry = c.env module idx ++ env := by
    rw [List.map_append, map_entry_global (classEnv_global c module idx), map_entry_global hg]
  have henv : (c.rename ρ).env module idx = c.env module idx := by
    unfold ClassDecl.env
    rw [memberNames_rename]
  have hinitials : (c.rename ρ).initials = renameExprs ρ c.initials :=
    filterMap_initial_rename c.fields
  have hm : (c.rename ρ).methods = c.methods.map (·.rename ρ) := rfl
  unfold ClassDecl.sites
  rw [henv, hinitials, hm, List.map_append, ← exprsSites_rename, hmap, List.flatMap_map,
    List.map_flatMap]
  refine congrArg (_ ++ ·) (List.flatMap_congr fun f _ => ?_)
  rw [← functionSites_rename, hmap]

end

namespace Registry

variable {ρ : Renaming} {r : Registry} {m : Module} {path : String}

theorem rootEnv_rename : (r.rename path ρ).rootEnv (m.rename ρ) = r.rootEnv m :=
  congrArg List.reverse ((r.alike_rename ρ path).rootNames rfl (m.outline_rename ρ))

/-- **Expressions stay where they stand**, and their environments have the new name. -/
theorem sites_rename : (r.rename path ρ).sites (m.rename ρ) = (r.sites m).map ρ.site := by
  have hg := rootEnv_global r m
  have hc : (m.rename ρ).decls.classes.zipIdx =
      m.decls.classes.zipIdx.map fun c => (c.1.rename ρ, c.2) :=
    zipIdx_map_fst _ _
  have hf : (m.rename ρ).decls.functions = m.decls.functions.map (·.rename ρ) := rfl
  have hp : (m.rename ρ).path = m.path := rfl
  unfold sites
  rw [rootEnv_rename, hc, hf, hp, List.map_append, List.flatMap_map, List.flatMap_map,
    List.map_flatMap, List.map_flatMap]
  refine congr (congrArg _ ?_) ?_
  · refine List.flatMap_congr fun c _ => ?_
    exact classSites_rename c.1 hg m.path c.2
  · refine List.flatMap_congr fun f _ => ?_
    rw [← functionSites_rename, Renaming.map_entry_global hg]

end Registry

/-! ### Look-ups -/

/-- The name that an expression consists of, or of whose class it makes an instance. -/
def Expr.name? : Expr → Option String
  | .ident _ name => some name
  | .new _ className _ _ => some className
  | _ => none

namespace Renaming

variable {ρ : Renaming} {env : Env}

/-- An entry that is not found under a name is not found under the name that takes its place, if
the new name is not in use and the variable is filed under its own. -/
theorem key_ne {name : String} {b : Binding} {d : String × Binding} (hname : name ≠ ρ.new)
    (hown : b = ρ.target → name = ρ.old) (hnew : d.1 ≠ ρ.new) (hold : d.2 = ρ.target → d.1 = ρ.old)
    (hd : name ≠ d.1) : (if b = ρ.target then ρ.new else name) ≠ (ρ.entry d).1 := by
  unfold entry
  by_cases hb : b = ρ.target <;> by_cases ht : d.2 = ρ.target
  · exact absurd ((hown hb).trans (hold ht).symm) hd
  · rw [if_pos hb, if_neg ht]
    exact hnew.symm
  · rw [if_neg hb, if_pos ht]
    exact hname
  · rw [if_neg hb, if_neg ht]
    exact hd

theorem mem_of_lookup {name : String} {b : Binding} (h : env.lookup name = some b) :
    (name, b) ∈ env := by
  obtain ⟨before, behind, he, -⟩ := List.lookup_eq_some_iff.1 h
  simp [he]

/-- What is found under a name is found under the name that takes its place. -/
theorem lookup_rename (hfresh : ∀ d ∈ env, d.1 ≠ ρ.new)
    (hnamed : ∀ d ∈ env, d.2 = ρ.target → d.1 = ρ.old) {name : String} {b : Binding}
    (h : env.lookup name = some b) :
    (env.map ρ.entry).lookup (if b = ρ.target then ρ.new else name) = some (ρ.binding b) := by
  have hname := hfresh _ (mem_of_lookup h)
  have hown := hnamed _ (mem_of_lookup h)
  induction env with
  | nil => cases h
  | cons d env ih =>
    rw [List.map_cons, Keyed.lookup_cons]
    rw [Keyed.lookup_cons] at h
    obtain ⟨hnew, hfresh⟩ := List.forall_mem_cons.1 hfresh
    obtain ⟨hold, hnamed⟩ := List.forall_mem_cons.1 hnamed
    by_cases hd : name = d.1
    · rw [if_pos hd, Option.some.injEq] at h
      subst h
      rw [hd]
      exact if_pos rfl
    · rw [if_neg hd] at h
      rw [if_neg (key_ne hname hown hnew hold hd)]
      exact ih hfresh hnamed h

/-- What is not found is not found afterwards. -/
theorem lookup_rename_none {name : String} (h : env.lookup name = none) (hne : name ≠ ρ.new) :
    (env.map ρ.entry).lookup name = none := by
  induction env with
  | nil => rfl
  | cons d env ih =>
    rw [Keyed.lookup_cons] at h
    rw [List.map_cons, Keyed.lookup_cons]
    by_cases hd : name = d.1
    · rw [if_pos hd] at h
      cases h
    · rw [if_neg hd] at h
      have hentry : name ≠ (ρ.entry d).1 := by
        unfold entry
        by_cases ht : d.2 = ρ.target
        · rw [if_pos ht]
          exact hne
        · rw [if_neg ht]
          exact hd
      rw [if_neg hentry]
      exact ih h

/-- The new name is not in use at a site, and the identifiers that are renamed are those that refer
to the variable. -/
structure Fits (ρ : Renaming) (s : Site) : Prop where
  fresh : ∀ d ∈ s.env, d.1 ≠ ρ.new
  named : ∀ d ∈ s.env, d.2 = ρ.target → d.1 = ρ.old
  other : s.expr.name? ≠ some ρ.new
  uses : ∀ node name, s.expr = .ident node name →
    (node.id ∈ ρ.uses ↔ s.env.lookup name = some ρ.target)

/-- A new instance is made where the variable has the name of the class. -/
def Hides (ρ : Renaming) (s : Site) : Prop :=
  ∃ node className classSpan args, s.expr = .new node className classSpan args ∧
    s.env.lookup className = some ρ.target

variable {s : Site}

theorem Fits.name_ne (h : ρ.Fits s) {name : String} (hn : s.expr.name? = some name) :
    name ≠ ρ.new := by
  rintro rfl
  exact h.other hn

/-- What an identifier refers to, it refers to under its new name. -/
theorem Fits.lookup_some (h : ρ.Fits s) {node : Node} {name : String}
    (he : s.expr = .ident node name) {b : Binding} (hl : s.env.lookup name = some b) :
    (s.env.map ρ.entry).lookup (ρ.used node.id name) = some (ρ.binding b) ∧
      ρ.used node.id name = if b = ρ.target then ρ.new else name := by
  have hused : ρ.used node.id name = if b = ρ.target then ρ.new else name := by
    unfold used
    simp only [h.uses node name he, hl, Option.some.injEq]
  rw [hused]
  exact ⟨lookup_rename h.fresh h.named hl, rfl⟩

theorem Fits.lookup_none (h : ρ.Fits s) {node : Node} {name : String}
    (he : s.expr = .ident node name) (hl : s.env.lookup name = none) :
    (s.env.map ρ.entry).lookup (ρ.used node.id name) = none ∧ ρ.used node.id name = name := by
  have hused : ρ.used node.id name = name := by
    refine if_neg fun hu => ?_
    rw [h.uses node name he, hl] at hu
    cases hu
  rw [hused]
  exact ⟨lookup_rename_none hl (h.name_ne (congrArg Expr.name? he)), rfl⟩

theorem reference?_rename (h : ρ.Fits s) (hh : ¬ ρ.Hides s) :
    (ρ.site s).reference? = s.reference?.map ρ.reference := by
  obtain ⟨e, usage, env⟩ := s
  cases e with
  | ident node name =>
    show ((env.map ρ.entry).lookup (ρ.used node.id name)).map _ = ((env.lookup name).map _).map _
    cases hl : env.lookup name with
    | none =>
      rw [(h.lookup_none rfl hl).1]
      rfl
    | some b =>
      obtain ⟨hlookup, hused⟩ := h.lookup_some rfl hl
      rw [hlookup, hused]
      rfl
  | new node className classSpan args =>
    unfold Site.reference? site Expr.rename
    dsimp only
    cases hl : env.lookup className with
    | none =>
      rw [lookup_rename_none hl (h.name_ne rfl)]
      rfl
    | some b =>
      have hb : b ≠ ρ.target := fun hb => hh ⟨node, className, classSpan, args, rfl, hb ▸ hl⟩
      have hlookup := lookup_rename h.fresh h.named hl
      rw [if_neg hb, binding, if_neg hb] at hlookup
      rw [hlookup]
      cases b with
      | classAt module idx =>
        have hkept : ρ.reference ⟨className, node.id, classSpan, .classAt module idx⟩ =
            ⟨className, node.id, classSpan, .classAt module idx⟩ := by
          rw [reference, binding, if_neg hb, if_neg hb]
        exact congrArg some hkept.symm
      | _ => rfl
  | _ => rfl

/-- Where the variable has hidden a class, nothing was referred to, and now it is the class, if
there is one. -/
theorem reference?_of_hides (h : ρ.Fits s) (hh : ρ.Hides s) :
    s.reference? = none ∧ ∀ ref, (ρ.site s).reference? = some ref →
      ref.name = ρ.old ∧ ∃ module idx, ref.binding = .classAt module idx := by
  obtain ⟨e, usage, env⟩ := s
  obtain ⟨node, className, classSpan, args, rfl, hl⟩ := hh
  have hname : className = ρ.old := by
    obtain ⟨before, behind, he, -⟩ := List.lookup_eq_some_iff.1 hl
    have he : env = before ++ (className, ρ.target) :: behind := he
    exact h.named (className, ρ.target) (by simp [he]) rfl
  refine ⟨?_, fun ref href => ?_⟩
  · unfold Site.reference?
    dsimp only at hl ⊢
    rw [hl]
    rfl
  · unfold Site.reference? site Expr.rename at href
    dsimp only at href
    split at href
    · next module idx _ =>
      cases href
      exact ⟨hname, module, idx, rfl⟩
    · cases href

/-- A fault stays a fault, and no other comes up. -/
theorem fault?_rename (h : ρ.Fits s) {cx cx' : NameContext}
    (hu : cx'.unboundCause? = cx.unboundCause?) : (ρ.site s).fault? cx' = s.fault? cx := by
  obtain ⟨e, usage, env⟩ := s
  cases e with
  | ident node name =>
    unfold Site.fault? site Expr.rename
    dsimp only
    cases hl : env.lookup name with
    | none =>
      obtain ⟨hlookup, hused⟩ := h.lookup_none rfl hl
      rw [hlookup, hused, hu]
    | some b =>
      rw [(h.lookup_some rfl hl).1]
      rfl
  | _ => rfl

end Renaming

/-! ### The names of a module -/

/-- No expression of the module names `y` or has `y` in sight. This holds of each name that occurs
nowhere (`Registry.unused_of_lacks`). -/
def Registry.Unused (r : Registry) (m : Module) (y : String) : Prop :=
  ∀ s ∈ r.sites m, s.env.lookup y = none ∧ s.expr.name? ≠ some y

instance (r : Registry) (m : Module) (y : String) : Decidable (r.Unused m y) :=
  inferInstanceAs (Decidable (∀ s ∈ r.sites m, s.env.lookup y = none ∧ s.expr.name? ≠ some y))

/-- The name is not that of the module, of a declaration, of a member of a class or of a variable,
and no expression of the module names it. -/
structure Module.Lacks (m : Module) (y : String) : Prop where
  shortName : m.shortName ≠ y
  symbols : ∀ s ∈ m.symbols, s.name ≠ y
  members : ∀ c ∈ m.decls.classes, y ∉ c.memberNames
  locals : y ∉ m.variables
  exprs : ∀ e ∈ m.exprs, e.name? ≠ some y

/-- The name occurs nowhere in the registry, and is no name that every module knows. -/
structure Registry.Lacks (r : Registry) (y : String) : Prop where
  modules : ∀ path m, r.find? path = some m → m.Lacks y
  builtin : y ∉ Builtin.names.map (·.1)

/-- A name that occurs nowhere is not in sight at the top of any module. -/
theorem Registry.Lacks.rootEnv {r : Registry} {y : String} (h : r.Lacks y) {path : String}
    {m : Module} (hm : r.find? path = some m) : ∀ d ∈ r.rootEnv m, d.1 ≠ y := by
  intro d hd
  rw [Registry.rootEnv, List.mem_reverse, Registry.rootNames] at hd
  rcases List.mem_append.1 hd with hd | hd
  · rcases List.mem_append.1 hd with hd | hd
    · obtain ⟨i, hi, hd⟩ := List.mem_flatMap.1 hd
      obtain ⟨p, -, hfind⟩ := List.mem_filterMap.1 hi
      have hlacks := h.modules p i hfind
      rcases List.mem_append.1 hd with hd | hd
      · obtain ⟨s, hs, rfl⟩ := List.mem_map.1 hd
        exact hlacks.symbols s (List.mem_filter.1 hs).1
      · obtain rfl := List.mem_singleton.1 hd
        exact hlacks.shortName
    · exact fun he => h.builtin (he ▸ List.mem_map_of_mem hd)
  · obtain ⟨s, hs, rfl⟩ := List.mem_map.1 hd
    refine (h.modules path m hm).symbols s ?_
    rw [m.symbols_eq, Declarations.symbols, List.append_assoc]
    exact List.mem_append_right _ hs

/-- **A name that occurs nowhere is not in use.** -/
theorem Registry.unused_of_lacks {r : Registry} {y : String} (h : r.Lacks y) {path : String}
    {m : Module} (hm : r.find? path = some m) : r.Unused m y := by
  have hlacks := h.modules path m hm
  have henv : AllEnvs (fun env => ∀ d ∈ env, d.1 ≠ y) (r.sites m) := by
    refine moduleSites_envFor (fun x hx env span hd => ?_) (h.rootEnv hm) fun c hc => ?_
    · exact List.forall_mem_cons.2 ⟨fun he => hlacks.locals (he ▸ hx), hd⟩
    · refine List.forall_mem_append.2 ⟨fun d hd he => ?_, h.rootEnv hm⟩
      rw [ClassDecl.env, List.mem_reverse] at hd
      obtain ⟨name, hname, rfl⟩ := List.mem_map.1 hd
      exact hlacks.members c.1 (List.fst_mem_of_mem_zipIdx hc) (he ▸ hname)
  intro s hs
  have hexpr : s.expr ∈ m.exprs := (sites_perm_exprs r m).mem_iff.1 (List.mem_map_of_mem hs)
  refine ⟨List.lookup_eq_none_iff.2 fun d hd => ?_, hlacks.exprs _ hexpr⟩
  simpa using (henv s hs d hd).symm

/-- The variable `x` that is declared at a place gets the name `y`, and so do all references to
it. -/
def Names.renaming (n : Names) (x y : String) (span : Span) : Renaming :=
  ⟨x, y, span, (n.referencesTo (.variable x span)).map (·.node)⟩

namespace Registry

variable {r : Registry} {path : String} {m : Module}

/-- A variable is filed under its name. -/
theorem sites_variables (r : Registry) (m : Module) :
    AllEnvs (fun env => ∀ d ∈ env, ∀ x span, d.2 = .variable x span → d.1 = x) (r.sites m) := by
  have hroot : ∀ d ∈ r.rootEnv m, ∀ x span, d.2 = .variable x span → d.1 = x :=
    fun d hd x span he => absurd he (rootEnv_global r m d hd x span)
  refine moduleSites_env ?_ hroot fun c _ => List.forall_mem_append.2 ⟨?_, hroot⟩
  · intro env x span h
    refine List.forall_mem_cons.2 ⟨fun x' span' he => ?_, h⟩
    cases he
    rfl
  · exact fun d hd x span he => absurd he (classEnv_global c.1 m.path c.2 d hd x span)

theorem sites_nodup (r : Registry) (hn : m.Numbered) : ((r.sites m).map (·.expr.id)).Nodup := by
  have hp := (sites_perm_exprs r m).map Expr.id
  rw [List.map_map] at hp
  exact hp.nodup_iff.2 hn

theorem mem_uses_iff {n : Names} {x y : String} {span : Span} {i : Nat} :
    i ∈ (n.renaming x y span).uses ↔
      ∃ ref ∈ n.references.toList, ref.binding = .variable x span ∧ ref.node = i := by
  simp [Names.renaming, Names.referencesTo, and_assoc]

/-- Finding references to a variable finds the identifiers whose environment leads to it. -/
theorem fits (hm : r.find? path = some m) (hn : m.Numbered) (x : String) {y : String}
    (hy : r.Unused m y) (span : Span) {s : Site} (hs : s ∈ r.sites m) :
    ((r.names path).renaming x y span).Fits s := by
  obtain ⟨hsight, hname⟩ := hy s hs
  refine ⟨fun d hd => ?_, fun d hd => sites_variables r m s hs d hd x span, hname,
    fun node name he => ?_⟩
  · have hne : y ≠ d.1 := by simpa using List.lookup_eq_none_iff.1 hsight d hd
    exact hne.symm
  · have href : s.reference? = (s.env.lookup name).map fun b => ⟨name, node.id, node.span, b⟩ := by
      unfold Site.reference?
      rw [he]
    rw [mem_uses_iff, references_eq_sites hm]
    constructor
    · rintro ⟨ref, hmem, hb, hnode⟩
      obtain ⟨t, ht, hr⟩ := List.mem_filterMap.1 hmem
      have hid : t.expr.id = s.expr.id := by
        rw [← Site.node_of_reference? hr, hnode, he]
        rfl
      have hts : t = s := List.inj_on_of_nodup_map (sites_nodup r hn) ht hs hid
      rw [hts, href] at hr
      obtain ⟨b, hl, rfl⟩ := Option.map_eq_some_iff.1 hr
      rw [hl]
      exact congrArg some hb
    · intro hl
      refine ⟨⟨name, node.id, node.span, .variable x span⟩, List.mem_filterMap.2 ⟨s, hs, ?_⟩,
        rfl, rfl⟩
      rw [href, hl]
      rfl

/-- The expressions with these numbers are new instances of a class that the variable hides. -/
def hidden (r : Registry) (m : Module) (x : String) (span : Span) : List Nat :=
  ((r.sites m).filter fun s =>
    match s.expr with
    | .new _ className _ _ => s.env.lookup className == some (.variable x span)
    | _ => false).map (·.expr.id)

theorem mem_hidden_iff (hn : m.Numbered) {n : Names} {x y : String} {span : Span} {s : Site}
    (hs : s ∈ r.sites m) : s.expr.id ∈ r.hidden m x span ↔ (n.renaming x y span).Hides s := by
  unfold hidden
  constructor
  · intro h
    obtain ⟨t, ht, hid⟩ := List.mem_map.1 h
    obtain ⟨ht, hl⟩ := List.mem_filter.1 ht
    obtain rfl : t = s := List.inj_on_of_nodup_map (sites_nodup r hn) ht hs hid
    split at hl
    · next node className classSpan args he =>
      exact ⟨node, className, classSpan, args, he, beq_iff_eq.1 hl⟩
    · cases hl
  · rintro ⟨node, className, classSpan, args, he, hl⟩
    refine List.mem_map_of_mem (f := fun s : Site => s.expr.id) (List.mem_filter.2 ⟨hs, ?_⟩)
    rw [he]
    exact beq_iff_eq.2 hl

/-- **What names refer to stays**, up to the new name. Only new instances of classes that the
variable has hidden come to refer to something. -/
theorem names_rename (hm : r.find? path = some m) (hn : m.Numbered) (x : String) {y : String}
    (hy : r.Unused m y) (span : Span) :
    let ρ := (r.names path).renaming x y span
    let renamed := (r.rename path ρ).names path
    renamed.errors.toList = (r.names path).errors.toList ∧
      (renamed.references.toList.filter fun ref => decide (ref.node ∉ r.hidden m x span)) =
        (r.names path).references.toList.map ρ.reference ∧
      ∀ ref ∈ renamed.references.toList, ref.node ∈ r.hidden m x span →
        ref.name = x ∧ ∃ module idx, ref.binding = .classAt module idx := by
  intro ρ renamed
  have hm' : (r.rename path ρ).find? path = some (m.rename ρ) := by
    rw [find?_rename, if_pos rfl, hm]
    rfl
  have hfits : ∀ s ∈ r.sites m, ρ.Fits s := fun s hs => fits hm hn x hy span hs
  have hhidden : ∀ s ∈ r.sites m, s.expr.id ∈ r.hidden m x span ↔ ρ.Hides s :=
    fun s hs => mem_hidden_iff hn hs
  have hid (s : Site) : (ρ.site s).expr.id = s.expr.id := s.expr.id_rename ρ
  refine ⟨?_, ?_, fun ref href hnode => ?_⟩
  · have hu : NameContext.unboundCause? ⟨r.rename path ρ, m.rename ρ⟩ =
        NameContext.unboundCause? ⟨r, m⟩ := by
      funext name usage
      have ho : (r.rename path ρ).privateOwner? (m.rename ρ) name = r.privateOwner? m name :=
        (r.alike_rename ρ path).privateOwner? rfl name
      simp only [NameContext.unboundCause?, ho]
      rfl
    rw [errors_eq_sites hm', errors_eq_sites hm, sites_rename, List.filterMap_map]
    exact List.filterMap_congr fun s hs => Renaming.fault?_rename (hfits s hs) hu
  · rw [references_eq_sites hm', references_eq_sites hm, sites_rename, List.filterMap_map,
      List.filter_filterMap, List.map_filterMap]
    refine List.filterMap_congr fun s hs => ?_
    show Option.filter _ (ρ.site s).reference? = _
    by_cases hh : ρ.Hides s
    · rw [(Renaming.reference?_of_hides (hfits s hs) hh).1, Option.map_none,
        Option.filter_eq_none_iff]
      intro ref href
      rw [Site.node_of_reference? href, hid, decide_eq_true_iff, not_not]
      exact (hhidden s hs).2 hh
    · rw [Renaming.reference?_rename (hfits s hs) hh]
      cases hr : s.reference? with
      | none => rfl
      | some ref =>
        refine Option.filter_some_pos (decide_eq_true fun hmem => hh ?_)
        have hmem : ref.node ∈ r.hidden m x span := hmem
        rw [Site.node_of_reference? hr] at hmem
        exact (hhidden s hs).1 hmem
  · rw [references_eq_sites hm', sites_rename, List.filterMap_map] at href
    obtain ⟨s, hs, hr⟩ := List.mem_filterMap.1 href
    have hr : (ρ.site s).reference? = some ref := hr
    rw [Site.node_of_reference? hr, hid, hhidden s hs] at hnode
    exact (Renaming.reference?_of_hides (hfits s hs) hnode).2 ref hr

end Registry

end MgLang
