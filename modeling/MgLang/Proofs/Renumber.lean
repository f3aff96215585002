import MgLang.Compilation
import MgLang.Proofs.Within
/-!
# Other numbers

The number of an expression says which expression is meant and nothing else. `Expr.renumber` and its
companions give the expressions of a tree other numbers, and `Report.renumber` does so in all that a
check has found out. One renumbering after another is a third (`renumber_renumber`), and only the
numbers that occur matter.
-/

namespace MgLang

/-- The node with another number. -/
def Node.renumber (ρ : Nat → Nat) (n : Node) : Node := { n with id := ρ n.id }

/-! ### Trees -/

mutual

/-- The expression with other numbers. -/
def Expr.renumber (ρ : Nat → Nat) : Expr → Expr
  | .int node value => .int (node.renumber ρ) value
  | .float node numeral => .float (node.renumber ρ) numeral
  | .string node value => .string (node.renumber ρ) value
  | .bool node value => .bool (node.renumber ρ) value
  | .interpolated node parts => .interpolated (node.renumber ρ) (renumberParts ρ parts)
  | .ident node name => .ident (node.renumber ρ) name
  | .this node => .this (node.renumber ρ)
  | .noneLit node => .noneLit (node.renumber ρ)
  | .someOf node inner => .someOf (node.renumber ρ) (inner.renumber ρ)
  | .binary node op left right =>
    .binary (node.renumber ρ) op (left.renumber ρ) (right.renumber ρ)
  | .unary node op operand => .unary (node.renumber ρ) op (operand.renumber ρ)
  | .assign node target value =>
    .assign (node.renumber ρ) (target.renumber ρ) (value.renumber ρ)
  | .call node callee args => .call (node.renumber ρ) (callee.renumber ρ) (renumberExprs ρ args)
  | .member node object name nameSpan =>
    .member (node.renumber ρ) (object.renumber ρ) name nameSpan
  | .index node object index => .index (node.renumber ρ) (object.renumber ρ) (index.renumber ρ)
  | .new node className classSpan args =>
    .new (node.renumber ρ) className classSpan (renumberExprs ρ args)
  | .array node items => .array (node.renumber ρ) (renumberExprs ρ items)
  | .lambda node params ret body => .lambda (node.renumber ρ) params ret (body.renumber ρ)

/-- The expressions with other numbers. -/
def renumberExprs (ρ : Nat → Nat) : List Expr → List Expr
  | [] => []
  | e :: es => e.renumber ρ :: renumberExprs ρ es

/-- The pieces of an interpolated string with other numbers. -/
def renumberParts (ρ : Nat → Nat) : List Part → List Part
  | [] => []
  | .text value :: parts => .text value :: renumberParts ρ parts
  | .hole e :: parts => .hole (e.renumber ρ) :: renumberParts ρ parts

/-- The statement with other numbers. -/
def Stmt.renumber (ρ : Nat → Nat) : Stmt → Stmt
  | .letStmt name mutable ty value nameSpan span =>
    .letStmt name mutable ty (value.renumber ρ) nameSpan span
  | .returnStmt none span => .returnStmt none span
  | .returnStmt (some value) span => .returnStmt (some (value.renumber ρ)) span
  | .ifStmt condition body none span =>
    .ifStmt (condition.renumber ρ) (body.renumber ρ) none span
  | .ifStmt condition body (some otherwise) span =>
    .ifStmt (condition.renumber ρ) (body.renumber ρ) (some (otherwise.renumber ρ)) span
  | .whileStmt condition body span =>
    .whileStmt (condition.renumber ρ) (body.renumber ρ) span
  | .forStmt name nameSpan iterable body span =>
    .forStmt name nameSpan (iterable.renumber ρ) (body.renumber ρ) span
  | .matchStmt scrutinee arms span =>
    .matchStmt (scrutinee.renumber ρ) (renumberArms ρ arms) span
  | .block body => .block (body.renumber ρ)
  | .expr value => .expr (value.renumber ρ)

/-- The statements with other numbers. -/
def renumberStmts (ρ : Nat → Nat) : List Stmt → List Stmt
  | [] => []
  | stmt :: stmts => stmt.renumber ρ :: renumberStmts ρ stmts

/-- The block with other numbers. -/
def Block.renumber (ρ : Nat → Nat) : Block → Block
  | ⟨stmts, span⟩ => ⟨renumberStmts ρ stmts, span⟩

/-- The arms with other numbers. -/
def renumberArms (ρ : Nat → Nat) : List Arm → List Arm
  | [] => []
  | ⟨pattern, body, span⟩ :: arms => ⟨pattern, body.renumber ρ, span⟩ :: renumberArms ρ arms

end

/-! ### Declarations -/

/-- The function with other numbers. -/
def FunctionDecl.renumber (ρ : Nat → Nat) (f : FunctionDecl) : FunctionDecl :=
  { f with body := f.body.renumber ρ }

/-- The field with other numbers. -/
def FieldDecl.renumber (ρ : Nat → Nat) (f : FieldDecl) : FieldDecl :=
  { f with initial := f.initial.map (·.renumber ρ) }

/-- The class with other numbers. -/
def ClassDecl.renumber (ρ : Nat → Nat) (c : ClassDecl) : ClassDecl :=
  { c with fields := c.fields.map (·.renumber ρ), methods := c.methods.map (·.renumber ρ) }

/-- The declarations with other numbers. -/
def Declarations.renumber (ρ : Nat → Nat) (d : Declarations) : Declarations :=
  { d with functions := d.functions.map (·.renumber ρ), classes := d.classes.map (·.renumber ρ) }

theorem Declarations.symbols_renumber (ρ : Nat → Nat) (d : Declarations) (path : String)
    (package : Package) : (d.renumber ρ).symbols path package = d.symbols path package := by
  simp only [symbols, functionSymbols, classSymbols, renumber, List.zipIdx_map, List.map_map]
  rfl

/-- The module with other numbers. Symbols have none. -/
def Module.renumber (ρ : Nat → Nat) (m : Module) : Module :=
  { m with
    decls := m.decls.renumber ρ
    symbols_eq := m.symbols_eq.trans (m.decls.symbols_renumber ρ m.path m.package).symm }

/-! ### Findings -/

/-- The reference, from the same expression with another number. -/
def Reference.renumber (ρ : Nat → Nat) (r : Reference) : Reference :=
  { r with node := ρ r.node }

/-- The identifiers of a module, with other numbers. -/
def Names.renumber (ρ : Nat → Nat) (n : Names) : Names :=
  { n with references := n.references.map (·.renumber ρ) }

/-- The type, of the same expression with another number. -/
def TypedNode.renumber (ρ : Nat → Nat) (t : TypedNode) : TypedNode :=
  { t with node := t.node.renumber ρ }

/-- The types of a module, with other numbers. -/
def Types.renumber (ρ : Nat → Nat) (t : Types) : Types :=
  { t with nodes := t.nodes.map (·.renumber ρ) }

/-- The findings about a module, with other numbers. -/
def ModuleReport.renumber (ρ : Nat → Nat) (r : ModuleReport) : ModuleReport :=
  { r with names := r.names.renumber ρ, types := r.types.renumber ρ }

/-- The findings of a check, with other numbers. -/
def Report.renumber (ρ : Nat → Nat) (r : Report) : Report :=
  ⟨r.modules.map (·.renumber ρ)⟩

/-! ### What stays -/

section

variable (ρ : Nat → Nat)

@[simp] theorem Expr.node_renumber (e : Expr) : (e.renumber ρ).node = e.node.renumber ρ := by
  cases e <;> rfl

@[simp] theorem Expr.span_renumber (e : Expr) : (e.renumber ρ).span = e.span := by
  rw [span, node_renumber]
  rfl

@[simp] theorem Expr.calleeName_renumber (e : Expr) :
    (e.renumber ρ).calleeName = e.calleeName := by
  cases e <;> rfl

@[simp] theorem length_renumberExprs (es : List Expr) :
    (renumberExprs ρ es).length = es.length := by
  induction es with
  | nil => rfl
  | cons e es ih => rw [renumberExprs, List.length_cons, List.length_cons, ih]

theorem renumberExprs_eq_map (es : List Expr) : renumberExprs ρ es = es.map (·.renumber ρ) := by
  induction es with
  | nil => rfl
  | cons e es ih => rw [renumberExprs, List.map_cons, ih]

end

/-- A fault points at a place, not at an expression. -/
@[simp] theorem Report.diagnostics_renumber (ρ : Nat → Nat) (r : Report) :
    (r.renumber ρ).diagnostics = r.diagnostics := by
  simp [Report.diagnostics, Report.renumber, List.flatMap_map, ModuleReport.renumber]

/-! ### One renumbering after another -/

/-- On the numbers of these expressions, `τ` is `ρ` and then `σ`. -/
def Chains (ρ σ τ : Nat → Nat) (es : List Expr) : Prop :=
  ∀ e ∈ es, σ (ρ e.id) = τ e.id

namespace Chains

variable {ρ σ τ : Nat → Nat} {es es' : List Expr} {e : Expr}

theorem append_iff : Chains ρ σ τ (es ++ es') ↔ Chains ρ σ τ es ∧ Chains ρ σ τ es' :=
  List.forall_mem_append

theorem singleton_iff : Chains ρ σ τ [e] ↔ σ (ρ e.id) = τ e.id :=
  List.forall_mem_singleton

/-- What is inside an expression, and the expression itself. -/
theorem inside {n : Node} (h : Chains ρ σ τ (es ++ [e])) (hn : e.node = n) :
    Chains ρ σ τ es ∧ (n.renumber ρ).renumber σ = n.renumber τ := by
  obtain ⟨hes, he⟩ := append_iff.1 h
  subst hn
  exact ⟨hes, congrArg (Node.mk · e.node.span) (singleton_iff.1 he)⟩

/-- The node of an expression with nothing inside. -/
theorem leaf {n : Node} (h : Chains ρ σ τ [e]) (hn : e.node = n) :
    (n.renumber ρ).renumber σ = n.renumber τ := by
  have hc : Chains ρ σ τ ([] ++ [e]) := h
  exact (hc.inside hn).2

theorem flatMap {α : Type} {f : α → List Expr} {as : List α} (h : Chains ρ σ τ (as.flatMap f))
    {a : α} (ha : a ∈ as) : Chains ρ σ τ (f a) :=
  fun e he => h e (List.mem_flatMap.2 ⟨a, ha, he⟩)

end Chains

section

variable {ρ σ τ : Nat → Nat}

mutual

theorem renumber_renumber : ∀ e : Expr, Chains ρ σ τ e.within →
    (e.renumber ρ).renumber σ = e.renumber τ
  | .int node _, h | .float node _, h | .string node _, h | .bool node _, h | .ident node _, h
  | .this node, h | .noneLit node, h => by
    have hn := Chains.leaf (n := node) h rfl
    simp only [Expr.renumber, hn]
  | .interpolated node parts, h => by
    obtain ⟨hp, hn⟩ := Chains.inside (n := node) h rfl
    simp only [Expr.renumber, hn, renumberParts_renumberParts parts hp]
  | .someOf node inner, h => by
    obtain ⟨hi, hn⟩ := Chains.inside (n := node) h rfl
    simp only [Expr.renumber, hn, renumber_renumber inner hi]
  | .binary node _ left right, h => by
    obtain ⟨hs, hn⟩ := Chains.inside (n := node) h rfl
    obtain ⟨hl, hr⟩ := Chains.append_iff.1 hs
    simp only [Expr.renumber, hn, renumber_renumber left hl, renumber_renumber right hr]
  | .unary node _ operand, h => by
    obtain ⟨ho, hn⟩ := Chains.inside (n := node) h rfl
    simp only [Expr.renumber, hn, renumber_renumber operand ho]
  | .assign node target value, h => by
    obtain ⟨hs, hn⟩ := Chains.inside (n := node) h rfl
    obtain ⟨ht, hv⟩ := Chains.append_iff.1 hs
    simp only [Expr.renumber, hn, renumber_renumber target ht, renumber_renumber value hv]
  | .call node callee args, h => by
    obtain ⟨hs, hn⟩ := Chains.inside (n := node) h rfl
    obtain ⟨hc, ha⟩ := Chains.append_iff.1 hs
    simp only [Expr.renumber, hn, renumber_renumber callee hc, renumberExprs_renumberExprs args ha]
  | .member node object _ _, h => by
    obtain ⟨ho, hn⟩ := Chains.inside (n := node) h rfl
    simp only [Expr.renumber, hn, renumber_renumber object ho]
  | .index node object index, h => by
    obtain ⟨hs, hn⟩ := Chains.inside (n := node) h rfl
    obtain ⟨ho, hi⟩ := Chains.append_iff.1 hs
    simp only [Expr.renumber, hn, renumber_renumber object ho, renumber_renumber index hi]
  | .new node _ _ args, h => by
    obtain ⟨ha, hn⟩ := Chains.inside (n := node) h rfl
    simp only [Expr.renumber, hn, renumberExprs_renumberExprs args ha]
  | .array node items, h => by
    obtain ⟨hi, hn⟩ := Chains.inside (n := node) h rfl
    simp only [Expr.renumber, hn, renumberExprs_renumberExprs items hi]
  | .lambda node _ _ body, h => by
    obtain ⟨hb, hn⟩ := Chains.inside (n := node) h rfl
    simp only [Expr.renumber, hn, block_renumber_renumber body hb]

theorem renumberExprs_renumberExprs : ∀ es : List Expr, Chains ρ σ τ (exprsWithin es) →
    renumberExprs σ (renumberExprs ρ es) = renumberExprs τ es
  | [], _ => rfl
  | e :: es, h => by
    obtain ⟨he, hes⟩ := Chains.append_iff.1 h
    simp only [renumberExprs, renumber_renumber e he, renumberExprs_renumberExprs es hes]

theorem renumberParts_renumberParts : ∀ parts : List Part, Chains ρ σ τ (partsWithin parts) →
    renumberParts σ (renumberParts ρ parts) = renumberParts τ parts
  | [], _ => rfl
  | .text _ :: parts, h => by
    simp only [renumberParts, renumberParts_renumberParts parts h]
  | .hole e :: parts, h => by
    obtain ⟨he, hp⟩ := Chains.append_iff.1 h
    simp only [renumberParts, renumber_renumber e he, renumberParts_renumberParts parts hp]

theorem stmt_renumber_renumber : ∀ stmt : Stmt, Chains ρ σ τ stmt.within →
    (stmt.renumber ρ).renumber σ = stmt.renumber τ
  | .letStmt _ _ _ value _ _, h => by simp only [Stmt.renumber, renumber_renumber value h]
  | .returnStmt none _, _ => rfl
  | .returnStmt (some value) _, h => by simp only [Stmt.renumber, renumber_renumber value h]
  | .ifStmt condition body none _, h | .whileStmt condition body _, h => by
    obtain ⟨hc, hb⟩ := Chains.append_iff.1 h
    simp only [Stmt.renumber, renumber_renumber condition hc, block_renumber_renumber body hb]
  | .ifStmt condition body (some otherwise) _, h => by
    obtain ⟨hs, ho⟩ := Chains.append_iff.1 h
    obtain ⟨hc, hb⟩ := Chains.append_iff.1 hs
    simp only [Stmt.renumber, renumber_renumber condition hc, block_renumber_renumber body hb,
      stmt_renumber_renumber otherwise ho]
  | .forStmt _ _ iterable body _, h => by
    obtain ⟨hi, hb⟩ := Chains.append_iff.1 h
    simp only [Stmt.renumber, renumber_renumber iterable hi, block_renumber_renumber body hb]
  | .matchStmt scrutinee arms _, h => by
    obtain ⟨hs, ha⟩ := Chains.append_iff.1 h
    simp only [Stmt.renumber, renumber_renumber scrutinee hs, renumberArms_renumberArms arms ha]
  | .block body, h => by simp only [Stmt.renumber, block_renumber_renumber body h]
  | .expr value, h => by simp only [Stmt.renumber, renumber_renumber value h]

theorem renumberStmts_renumberStmts : ∀ stmts : List Stmt, Chains ρ σ τ (stmtsWithin stmts) →
    renumberStmts σ (renumberStmts ρ stmts) = renumberStmts τ stmts
  | [], _ => rfl
  | stmt :: stmts, h => by
    obtain ⟨hs, hss⟩ := Chains.append_iff.1 h
    simp only [renumberStmts, stmt_renumber_renumber stmt hs, renumberStmts_renumberStmts stmts hss]

theorem block_renumber_renumber : ∀ body : Block, Chains ρ σ τ body.within →
    (body.renumber ρ).renumber σ = body.renumber τ
  | ⟨stmts, _⟩, h => by simp only [Block.renumber, renumberStmts_renumberStmts stmts h]

theorem renumberArms_renumberArms : ∀ arms : List Arm, Chains ρ σ τ (armsWithin arms) →
    renumberArms σ (renumberArms ρ arms) = renumberArms τ arms
  | [], _ => rfl
  | ⟨_, body, _⟩ :: arms, h => by
    obtain ⟨hb, ha⟩ := Chains.append_iff.1 h
    simp only [renumberArms, block_renumber_renumber body hb, renumberArms_renumberArms arms ha]

end

end

/-! ### Numbers that stay -/

@[simp] theorem node_renumber_id (n : Node) : n.renumber id = n := rfl

mutual

theorem renumber_id : ∀ e : Expr, e.renumber id = e
  | .int _ _ | .float _ _ | .string _ _ | .bool _ _ | .ident _ _ | .this _ | .noneLit _ => rfl
  | .interpolated _ parts => by
    simp only [Expr.renumber, node_renumber_id, renumberParts_id parts]
  | .someOf _ inner => by simp only [Expr.renumber, node_renumber_id, renumber_id inner]
  | .binary _ _ left right => by
    simp only [Expr.renumber, node_renumber_id, renumber_id left, renumber_id right]
  | .unary _ _ operand => by simp only [Expr.renumber, node_renumber_id, renumber_id operand]
  | .assign _ target value => by
    simp only [Expr.renumber, node_renumber_id, renumber_id target, renumber_id value]
  | .call _ callee args => by
    simp only [Expr.renumber, node_renumber_id, renumber_id callee, renumberExprs_id args]
  | .member _ object _ _ => by simp only [Expr.renumber, node_renumber_id, renumber_id object]
  | .index _ object index => by
    simp only [Expr.renumber, node_renumber_id, renumber_id object, renumber_id index]
  | .new _ _ _ args => by simp only [Expr.renumber, node_renumber_id, renumberExprs_id args]
  | .array _ items => by simp only [Expr.renumber, node_renumber_id, renumberExprs_id items]
  | .lambda _ _ _ body => by simp only [Expr.renumber, node_renumber_id, block_renumber_id body]

theorem renumberExprs_id : ∀ es : List Expr, renumberExprs id es = es
  | [] => rfl
  | e :: es => by simp only [renumberExprs, renumber_id e, renumberExprs_id es]

theorem renumberParts_id : ∀ parts : List Part, renumberParts id parts = parts
  | [] => rfl
  | .text _ :: parts => by simp only [renumberParts, renumberParts_id parts]
  | .hole e :: parts => by simp only [renumberParts, renumber_id e, renumberParts_id parts]

theorem stmt_renumber_id : ∀ stmt : Stmt, stmt.renumber id = stmt
  | .letStmt _ _ _ value _ _ => by simp only [Stmt.renumber, renumber_id value]
  | .returnStmt none _ => rfl
  | .returnStmt (some value) _ => by simp only [Stmt.renumber, renumber_id value]
  | .ifStmt condition body none _ | .whileStmt condition body _ => by
    simp only [Stmt.renumber, renumber_id condition, block_renumber_id body]
  | .ifStmt condition body (some otherwise) _ => by
    simp only [Stmt.renumber, renumber_id condition, block_renumber_id body,
      stmt_renumber_id otherwise]
  | .forStmt _ _ iterable body _ => by
    simp only [Stmt.renumber, renumber_id iterable, block_renumber_id body]
  | .matchStmt scrutinee arms _ => by
    simp only [Stmt.renumber, renumber_id scrutinee, renumberArms_id arms]
  | .block body => by simp only [Stmt.renumber, block_renumber_id body]
  | .expr value => by simp only [Stmt.renumber, renumber_id value]

theorem renumberStmts_id : ∀ stmts : List Stmt, renumberStmts id stmts = stmts
  | [] => rfl
  | stmt :: stmts => by simp only [renumberStmts, stmt_renumber_id stmt, renumberStmts_id stmts]

theorem block_renumber_id : ∀ body : Block, body.renumber id = body
  | ⟨stmts, _⟩ => by simp only [Block.renumber, renumberStmts_id stmts]

theorem renumberArms_id : ∀ arms : List Arm, renumberArms id arms = arms
  | [] => rfl
  | ⟨_, body, _⟩ :: arms => by
    simp only [renumberArms, block_renumber_id body, renumberArms_id arms]

end

/-! ### Declarations and modules -/

section

variable {ρ σ τ : Nat → Nat}

theorem FunctionDecl.renumber_renumber {f : FunctionDecl} (h : Chains ρ σ τ f.body.within) :
    (f.renumber ρ).renumber σ = f.renumber τ :=
  congrArg ({ f with body := · }) (block_renumber_renumber f.body h)

theorem FieldDecl.renumber_renumber {f : FieldDecl}
    (h : ∀ e, f.initial = some e → Chains ρ σ τ e.within) :
    (f.renumber ρ).renumber σ = f.renumber τ := by
  have hi : (f.initial.map (·.renumber ρ)).map (·.renumber σ) = f.initial.map (·.renumber τ) := by
    cases he : f.initial with
    | none => rfl
    | some e => exact congrArg some (MgLang.renumber_renumber e (h e he))
  exact congrArg ({ f with initial := · }) hi

/-- What is within one of several expressions is within them. -/
theorem Chains.of_mem {es : List Expr} (h : Chains ρ σ τ (exprsWithin es)) {e : Expr}
    (he : e ∈ es) : Chains ρ σ τ e.within := by
  induction es with
  | nil => cases he
  | cons e' es ih =>
    obtain ⟨h', hes⟩ := Chains.append_iff.1 h
    rcases List.mem_cons.1 he with rfl | he
    · exact h'
    · exact ih hes he

/-- Renumbering member by member, twice. -/
theorem map_renumber_renumber {α : Type} {f g k : α → α} {l : List α}
    (h : ∀ a ∈ l, g (f a) = k a) : (l.map f).map g = l.map k := by
  rw [List.map_map]
  exact List.map_congr_left h

theorem ClassDecl.renumber_renumber {c : ClassDecl} (h : Chains ρ σ τ c.within) :
    (c.renumber ρ).renumber σ = c.renumber τ := by
  obtain ⟨hi, hm⟩ := Chains.append_iff.1 h
  have hf := map_renumber_renumber (l := c.fields) fun f hf =>
    FieldDecl.renumber_renumber (f := f) (ρ := ρ) (σ := σ) (τ := τ) fun e he =>
      hi.of_mem (List.mem_filterMap.2 ⟨f, hf, he⟩)
  have hg := map_renumber_renumber (l := c.methods) fun f hf =>
    FunctionDecl.renumber_renumber (f := f) (hm.flatMap hf)
  simp only [ClassDecl.renumber, hf, hg]

theorem Declarations.renumber_renumber {d : Declarations}
    (h : Chains ρ σ τ
      (d.classes.flatMap ClassDecl.within ++ d.functions.flatMap (·.body.within))) :
    (d.renumber ρ).renumber σ = d.renumber τ := by
  obtain ⟨hc, hf⟩ := Chains.append_iff.1 h
  have hcs := map_renumber_renumber (l := d.classes) fun c hmem =>
    ClassDecl.renumber_renumber (c := c) (hc.flatMap hmem)
  have hfs := map_renumber_renumber (l := d.functions) fun f hmem =>
    FunctionDecl.renumber_renumber (f := f) (hf.flatMap hmem)
  simp only [Declarations.renumber, hfs, hcs]

theorem Module.renumber_renumber {m : Module} (h : Chains ρ σ τ m.exprs) :
    (m.renumber ρ).renumber σ = m.renumber τ :=
  Module.ext rfl rfl (Declarations.renumber_renumber h) rfl rfl rfl

theorem FunctionDecl.renumber_id (f : FunctionDecl) : f.renumber id = f :=
  congrArg ({ f with body := · }) (block_renumber_id f.body)

theorem FieldDecl.renumber_id (f : FieldDecl) : f.renumber id = f := by
  have hi : f.initial.map (·.renumber id) = f.initial := by
    cases f.initial with
    | none => rfl
    | some e => exact congrArg some (MgLang.renumber_id e)
  exact congrArg ({ f with initial := · }) hi

theorem ClassDecl.renumber_id (c : ClassDecl) : c.renumber id = c := by
  simp only [ClassDecl.renumber, FieldDecl.renumber_id, FunctionDecl.renumber_id, List.map_id']

theorem Declarations.renumber_id (d : Declarations) : d.renumber id = d := by
  simp only [Declarations.renumber, ClassDecl.renumber_id, FunctionDecl.renumber_id, List.map_id']

theorem Module.renumber_id (m : Module) : m.renumber id = m :=
  Module.ext rfl rfl m.decls.renumber_id rfl rfl rfl

theorem Report.renumber_id (r : Report) : r.renumber id = r := by
  have hm (rep : ModuleReport) : rep.renumber id = rep := by
    have hr : rep.names.references.map (Reference.renumber id) = rep.names.references :=
      Array.map_id'' (fun _ => rfl) _
    have ht : rep.types.nodes.map (TypedNode.renumber id) = rep.types.nodes :=
      List.map_id'' (fun _ => rfl) _
    simp only [ModuleReport.renumber, Names.renumber, Types.renumber, hr, ht]
  simp only [Report.renumber, hm, List.map_id']

/-- A renumbering that leaves the numbers in a module alone leaves the module alone. -/
theorem Module.renumber_eq_self {m : Module} (h : ∀ e ∈ m.exprs, ρ e.id = e.id) :
    m.renumber ρ = m := by
  have hr := Module.renumber_renumber (m := m) (ρ := ρ) (σ := id) (τ := id) h
  rwa [Module.renumber_id, Module.renumber_id] at hr

theorem Module.renumber_ofFile (path file : String) (package : Package) (decls : Declarations) :
    (ofFile path package decls file).renumber ρ = ofFile path package (decls.renumber ρ) file :=
  Module.ext rfl rfl rfl rfl rfl rfl

theorem Declarations.renumber_merge (d d' : Declarations) (usings : List Using) :
    Declarations.renumber ρ ⟨usings, d.functions ++ d'.functions, d.classes ++ d'.classes⟩ =
      ⟨usings, (d.renumber ρ).functions ++ (d'.renumber ρ).functions,
        (d.renumber ρ).classes ++ (d'.renumber ρ).classes⟩ := by
  simp only [Declarations.renumber, List.map_append]

theorem Module.renumber_merge (m m' : Module) :
    (m.merge m').renumber ρ = (m.renumber ρ).merge (m'.renumber ρ) :=
  Module.ext rfl rfl (Declarations.renumber_merge m.decls m'.decls _) rfl rfl rfl

end

end MgLang
