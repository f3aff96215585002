import MgLang.Proofs.Lexical
/-!
# The variables of a module

`Expr.variables` and its companions list the names of the variables that a tree declares: those of
parameters, `let`, `for` and the patterns of arms. They are all that is in sight at a site besides
what is in sight around the tree, so a property of the environment there holds at every site if a
declaration of such a variable cannot break it (`sites_env`).
-/

namespace MgLang

mutual

/-- The names of the variables that are declared in an expression. -/
def Expr.variables : Expr → List String
  | .int _ _ | .float _ _ | .string _ _ | .bool _ _ | .ident _ _ | .this _ | .noneLit _ => []
  | .interpolated _ parts => partsVariables parts
  | .someOf _ inner => inner.variables
  | .binary _ _ left right => left.variables ++ right.variables
  | .unary _ _ operand => operand.variables
  | .assign _ target value => target.variables ++ value.variables
  | .call _ callee args => callee.variables ++ exprsVariables args
  | .member _ object _ _ => object.variables
  | .index _ object index => object.variables ++ index.variables
  | .new _ _ _ args => exprsVariables args
  | .array _ items => exprsVariables items
  | .lambda _ params _ body => params.map (·.name) ++ body.variables

/-- The names of the variables that are declared in expressions. -/
def exprsVariables : List Expr → List String
  | [] => []
  | e :: es => e.variables ++ exprsVariables es

/-- The names of the variables that are declared in the holes of an interpolated string. -/
def partsVariables : List Part → List String
  | [] => []
  | .text _ :: parts => partsVariables parts
  | .hole e :: parts => e.variables ++ partsVariables parts

/-- The names of the variables that are declared in a statement. -/
def Stmt.variables : Stmt → List String
  | .letStmt name _ _ value _ _ => name :: value.variables
  | .returnStmt none _ => []
  | .returnStmt (some value) _ => value.variables
  | .ifStmt condition body none _ | .whileStmt condition body _ =>
    condition.variables ++ body.variables
  | .ifStmt condition body (some otherwise) _ =>
    condition.variables ++ body.variables ++ otherwise.variables
  | .forStmt name _ iterable body _ => name :: (iterable.variables ++ body.variables)
  | .matchStmt scrutinee arms _ => scrutinee.variables ++ armsVariables arms
  | .block body => body.variables
  | .expr value => value.variables

/-- The names of the variables that are declared in statements. -/
def stmtsVariables : List Stmt → List String
  | [] => []
  | stmt :: stmts => stmt.variables ++ stmtsVariables stmts

/-- The names of the variables that are declared in a block. -/
def Block.variables : Block → List String
  | ⟨stmts, _⟩ => stmtsVariables stmts

/-- The names of the variables that are declared in the arms of a `match`. -/
def armsVariables : List Arm → List String
  | [] => []
  | ⟨pattern, body, _⟩ :: arms =>
    pattern.declares.map (·.1) ++ body.variables ++ armsVariables arms

end

/-- The names of the variables that are declared in a function. -/
def FunctionDecl.variables (f : FunctionDecl) : List String :=
  f.params.map (·.name) ++ f.body.variables

/-- The names of the variables that are declared in a class. -/
def ClassDecl.variables (c : ClassDecl) : List String :=
  exprsVariables c.initials ++ c.methods.flatMap FunctionDecl.variables

/-- The names of the variables that are declared in a module. -/
def Module.variables (m : Module) : List String :=
  m.decls.classes.flatMap ClassDecl.variables ++ m.decls.functions.flatMap FunctionDecl.variables

/-! ### Environments within a module -/

/-- A property of environments that lasts where a variable is declared. -/
def Env.Lasting (P : Env → Prop) : Prop :=
  ∀ env x span, P env → P ((x, .variable x span) :: env)

/-- A property of environments that lasts where a variable of one of these names is declared. -/
def Env.LastingFor (xs : List String) (P : Env → Prop) : Prop :=
  ∀ x ∈ xs, ∀ env span, P env → P ((x, .variable x span) :: env)

section

variable {P : Env → Prop} {env : Env} {xs ys : List String}

theorem Env.Lasting.lastingFor (hP : Env.Lasting P) (xs : List String) : Env.LastingFor xs P :=
  fun x _ env span => hP env x span

theorem Env.lastingFor_append :
    Env.LastingFor (xs ++ ys) P ↔ Env.LastingFor xs P ∧ Env.LastingFor ys P :=
  List.forall_mem_append

theorem Env.lastingFor_cons {x : String} :
    Env.LastingFor (x :: xs) P ↔
      (∀ env span, P env → P ((x, .variable x span) :: env)) ∧ Env.LastingFor xs P :=
  List.forall_mem_cons

theorem Env.LastingFor.params {params : List Param}
    (hP : Env.LastingFor (params.map (·.name)) P) (h : P env) : P (paramEnv params ++ env) := by
  induction params generalizing env with
  | nil => exact h
  | cons p params ih =>
    obtain ⟨hp, hps⟩ := Env.lastingFor_cons.1 hP
    simpa [paramEnv] using ih hps (hp env p.span h)

theorem Env.LastingFor.pattern {p : ArmPattern}
    (hP : Env.LastingFor (p.declares.map (·.1)) P) (h : P env) : P (p.declares ++ env) := by
  cases p with
  | some name span => exact hP name List.mem_cons_self env span h
  | none => exact h
  | wildcard => exact h

theorem Env.LastingFor.stmt : ∀ (s : Stmt), Env.LastingFor s.variables P → P env →
    P (s.declares ++ env)
  | .letStmt _ _ _ _ nameSpan _, hP, h => (Env.lastingFor_cons.1 hP).1 env nameSpan h
  | .ifStmt _ _ (some otherwise) _, hP, h =>
    Env.LastingFor.stmt otherwise (Env.lastingFor_append.1 hP).2 h
  | .ifStmt _ _ none _, _, h | .returnStmt _ _, _, h | .whileStmt _ _ _, _, h
  | .forStmt _ _ _ _ _, _, h | .matchStmt _ _ _, _, h | .block _, _, h | .expr _, _, h => h

end

/-- The property holds of the environments of all sites. -/
def AllEnvs (P : Env → Prop) (ss : List Site) : Prop :=
  ∀ σ ∈ ss, P σ.env

section

variable {P : Env → Prop} {ss ss' : List Site}

theorem AllEnvs.nil : AllEnvs P [] := List.forall_mem_nil _

theorem AllEnvs.append (h : AllEnvs P ss) (h' : AllEnvs P ss') : AllEnvs P (ss ++ ss') :=
  List.forall_mem_append.2 ⟨h, h'⟩

theorem AllEnvs.cons {σ : Site} (h : P σ.env) (hs : AllEnvs P ss) : AllEnvs P (σ :: ss) :=
  List.forall_mem_cons.2 ⟨h, hs⟩

theorem AllEnvs.flatMap {α : Type} {xs : List α} {f : α → List Site}
    (h : ∀ x ∈ xs, AllEnvs P (f x)) : AllEnvs P (xs.flatMap f) := by
  intro σ hσ
  obtain ⟨x, hx, hσ⟩ := List.mem_flatMap.1 hσ
  exact h x hx σ hσ

end

section

variable {P : Env → Prop}

open Env (LastingFor lastingFor_append lastingFor_cons)

mutual

/-- What lasts for the variables of an expression holds of the environments of all its sites. -/
theorem sites_env : ∀ (e : Expr) {env : Env} (usage : Usage),
    LastingFor e.variables P → P env → AllEnvs P (e.sites env usage)
  | .int _ _, _, _, _, h | .float _ _, _, _, _, h | .string _ _, _, _, _, h
  | .bool _ _, _, _, _, h | .ident _ _, _, _, _, h | .this _, _, _, _, h
  | .noneLit _, _, _, _, h => AllEnvs.nil.cons h
  | .interpolated _ parts, _, _, hP, h => (partsSites_env parts hP h).cons h
  | .someOf _ inner, _, _, hP, h => (sites_env inner .value hP h).cons h
  | .binary _ _ left right, _, _, hP, h => by
    obtain ⟨hl, hr⟩ := lastingFor_append.1 hP
    exact ((sites_env left .value hl h).append (sites_env right .value hr h)).cons h
  | .unary _ _ operand, _, _, hP, h => (sites_env operand .value hP h).cons h
  | .assign _ target value, _, _, hP, h => by
    obtain ⟨ht, hv⟩ := lastingFor_append.1 hP
    exact ((sites_env target .value ht h).append (sites_env value .value hv h)).cons h
  | .call _ callee args, _, _, hP, h => by
    obtain ⟨hc, ha⟩ := lastingFor_append.1 hP
    exact ((sites_env callee .callee hc h).append (exprsSites_env args ha h)).cons h
  | .member _ object _ _, _, _, hP, h => (sites_env object .receiver hP h).cons h
  | .index _ object index, _, _, hP, h => by
    obtain ⟨ho, hi⟩ := lastingFor_append.1 hP
    exact ((sites_env object .value ho h).append (sites_env index .value hi h)).cons h
  | .new _ _ _ args, _, _, hP, h => (exprsSites_env args hP h).cons h
  | .array _ items, _, _, hP, h => (exprsSites_env items hP h).cons h
  | .lambda _ params _ body, _, _, hP, h => by
    obtain ⟨hp, hb⟩ := lastingFor_append.1 hP
    exact (blockSites_env body hb (hp.params h)).cons h

theorem exprsSites_env : ∀ (es : List Expr) {env : Env},
    LastingFor (exprsVariables es) P → P env → AllEnvs P (exprsSites env es)
  | [], _, _, _ => .nil
  | e :: es, _, hP, h => by
    obtain ⟨he, hes⟩ := lastingFor_append.1 hP
    exact (sites_env e .value he h).append (exprsSites_env es hes h)

theorem partsSites_env : ∀ (ps : List Part) {env : Env},
    LastingFor (partsVariables ps) P → P env → AllEnvs P (partsSites env ps)
  | [], _, _, _ => .nil
  | .text _ :: ps, _, hP, h => partsSites_env ps hP h
  | .hole e :: ps, _, hP, h => by
    obtain ⟨he, hps⟩ := lastingFor_append.1 hP
    exact (sites_env e .value he h).append (partsSites_env ps hps h)

theorem stmtSites_env : ∀ (s : Stmt) {env : Env},
    LastingFor s.variables P → P env → AllEnvs P (s.sites env)
  | .letStmt _ _ _ value _ _, _, hP, h => sites_env value .value (lastingFor_cons.1 hP).2 h
  | .returnStmt none _, _, _, _ => .nil
  | .returnStmt (some value) _, _, hP, h => sites_env value .value hP h
  | .ifStmt condition body none _, _, hP, h | .whileStmt condition body _, _, hP, h => by
    obtain ⟨hc, hb⟩ := lastingFor_append.1 hP
    exact (sites_env condition .value hc h).append (blockSites_env body hb h)
  | .ifStmt condition body (some otherwise) _, _, hP, h => by
    obtain ⟨hcb, ho⟩ := lastingFor_append.1 hP
    obtain ⟨hc, hb⟩ := lastingFor_append.1 hcb
    have hsites := (sites_env condition .value hc h).append (blockSites_env body hb h)
    exact hsites.append (stmtSites_env otherwise ho h)
  | .forStmt name nameSpan iterable body _, env, hP, h => by
    obtain ⟨hn, hib⟩ := lastingFor_cons.1 hP
    obtain ⟨hi, hb⟩ := lastingFor_append.1 hib
    exact (sites_env iterable .value hi h).append (blockSites_env body hb (hn env nameSpan h))
  | .matchStmt scrutinee arms _, _, hP, h => by
    obtain ⟨hs, ha⟩ := lastingFor_append.1 hP
    exact (sites_env scrutinee .value hs h).append (armsSites_env arms ha h)
  | .block body, _, hP, h => blockSites_env body hP h
  | .expr value, _, hP, h => sites_env value .value hP h

theorem stmtsSites_env : ∀ (ss : List Stmt) {env : Env},
    LastingFor (stmtsVariables ss) P → P env → AllEnvs P (stmtsSites env ss)
  | [], _, _, _ => .nil
  | s :: ss, _, hP, h => by
    obtain ⟨hs, hss⟩ := lastingFor_append.1 hP
    exact (stmtSites_env s hs h).append (stmtsSites_env ss hss (LastingFor.stmt s hs h))

theorem blockSites_env : ∀ (b : Block) {env : Env},
    LastingFor b.variables P → P env → AllEnvs P (b.sites env)
  | ⟨stmts, _⟩, _, hP, h => stmtsSites_env stmts hP h

theorem armsSites_env : ∀ (as : List Arm) {env : Env},
    LastingFor (armsVariables as) P → P env → AllEnvs P (armsSites env as)
  | [], _, _, _ => .nil
  | ⟨pattern, body, _⟩ :: arms, _, hP, h => by
    obtain ⟨hpb, ha⟩ := lastingFor_append.1 hP
    obtain ⟨hp, hb⟩ := lastingFor_append.1 hpb
    exact (blockSites_env body hb (hp.pattern h)).append (armsSites_env arms ha h)

end

theorem functionSites_env (f : FunctionDecl) {env : Env} (hP : LastingFor f.variables P)
    (h : P env) : AllEnvs P (f.sites env) := by
  obtain ⟨hp, hb⟩ := lastingFor_append.1 hP
  exact blockSites_env f.body hb (hp.params h)

theorem classSites_env (c : ClassDecl) (hP : LastingFor c.variables P) {env : Env}
    {module : String} {idx : Nat} (h : P (c.env module idx ++ env)) :
    AllEnvs P (c.sites env module idx) := by
  obtain ⟨hi, hm⟩ := lastingFor_append.1 hP
  refine (exprsSites_env c.initials hi h).append (.flatMap fun f hf => ?_)
  exact functionSites_env f (fun x hx => hm x (List.mem_flatMap.2 ⟨f, hf, hx⟩)) h

/-- What lasts for the variables of a module, and holds of its scope with the members of any of its
classes and without, holds of the environments of all sites of the module. -/
theorem moduleSites_envFor {r : Registry} {m : Module} (hP : LastingFor m.variables P)
    (h : P (r.rootEnv m))
    (hc : ∀ x ∈ m.decls.classes.zipIdx, P (x.1.env m.path x.2 ++ r.rootEnv m)) :
    AllEnvs P (r.sites m) := by
  obtain ⟨hclasses, hfunctions⟩ := lastingFor_append.1 hP
  refine AllEnvs.append (.flatMap fun x hx => ?_) (.flatMap fun f hf => ?_)
  · have hmem : x.1 ∈ m.decls.classes := List.fst_mem_of_mem_zipIdx hx
    exact classSites_env x.1 (fun y hy => hclasses y (List.mem_flatMap.2 ⟨_, hmem, hy⟩)) (hc x hx)
  · exact functionSites_env f (fun y hy => hfunctions y (List.mem_flatMap.2 ⟨f, hf, hy⟩)) h

theorem moduleSites_env (hP : Env.Lasting P) {r : Registry} {m : Module} (h : P (r.rootEnv m))
    (hc : ∀ x ∈ m.decls.classes.zipIdx, P (x.1.env m.path x.2 ++ r.rootEnv m)) :
    AllEnvs P (r.sites m) :=
  moduleSites_envFor (hP.lastingFor _) h hc

end

end MgLang
