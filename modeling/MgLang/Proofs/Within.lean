import MgLang.Module.Basic
/-!
# The expressions of a module

`Module.exprs` lists every expression that occurs in a module, at any depth and each after the
expressions inside it (`Expr.inside`). That is the order in which the numbers of expressions are
handed out. With an expression the list has all that is within it (`exprs_nested`).
-/

namespace MgLang

mutual

/-- The expressions within an expression. It is the last of them itself. -/
def Expr.within (e : Expr) : List Expr :=
  (match e with
    | .int _ _ | .float _ _ | .string _ _ | .bool _ _ | .ident _ _ | .this _ | .noneLit _ => []
    | .interpolated _ parts => partsWithin parts
    | .someOf _ inner => inner.within
    | .binary _ _ left right => left.within ++ right.within
    | .unary _ _ operand => operand.within
    | .assign _ target value => target.within ++ value.within
    | .call _ callee args => callee.within ++ exprsWithin args
    | .member _ object _ _ => object.within
    | .index _ object index => object.within ++ index.within
    | .new _ _ _ args => exprsWithin args
    | .array _ items => exprsWithin items
    | .lambda _ _ _ body => body.within) ++ [e]

/-- The expressions within expressions. -/
def exprsWithin : List Expr → List Expr
  | [] => []
  | e :: es => e.within ++ exprsWithin es

/-- The expressions within the holes of an interpolated string. -/
def partsWithin : List Part → List Expr
  | [] => []
  | .text _ :: parts => partsWithin parts
  | .hole e :: parts => e.within ++ partsWithin parts

/-- The expressions within a statement. -/
def Stmt.within : Stmt → List Expr
  | .letStmt _ _ _ value _ _ => value.within
  | .returnStmt none _ => []
  | .returnStmt (some value) _ => value.within
  | .ifStmt condition body none _ => condition.within ++ body.within
  | .ifStmt condition body (some otherwise) _ =>
    condition.within ++ body.within ++ otherwise.within
  | .whileStmt condition body _ => condition.within ++ body.within
  | .forStmt _ _ iterable body _ => iterable.within ++ body.within
  | .matchStmt scrutinee arms _ => scrutinee.within ++ armsWithin arms
  | .block body => body.within
  | .expr value => value.within

/-- The expressions within statements. -/
def stmtsWithin : List Stmt → List Expr
  | [] => []
  | stmt :: stmts => stmt.within ++ stmtsWithin stmts

/-- The expressions within a block. -/
def Block.within : Block → List Expr
  | ⟨stmts, _⟩ => stmtsWithin stmts

/-- The expressions within the arms of a `match`. -/
def armsWithin : List Arm → List Expr
  | [] => []
  | ⟨_, body, _⟩ :: arms => body.within ++ armsWithin arms

end

/-- The initial values of the fields of a class. -/
def ClassDecl.initials (c : ClassDecl) : List Expr :=
  c.fields.filterMap (·.initial)

/-- The expressions within a class: those of its fields, then those of its methods. -/
def ClassDecl.within (c : ClassDecl) : List Expr :=
  exprsWithin c.initials ++ c.methods.flatMap (·.body.within)

/-- Every expression of a module. -/
def Module.exprs (m : Module) : List Expr :=
  m.decls.classes.flatMap ClassDecl.within ++ m.decls.functions.flatMap (·.body.within)

/-- No two expressions of the module have the same number. A reader hands every number out once. -/
def Module.Numbered (m : Module) : Prop :=
  (m.exprs.map Expr.id).Nodup

instance (m : Module) : Decidable m.Numbered :=
  inferInstanceAs (Decidable (List.Nodup _))

theorem mem_within_self (e : Expr) : e ∈ e.within := by
  unfold Expr.within
  exact List.mem_append_right _ (List.mem_singleton_self e)

/-! ### What is within an expression -/

/-- With an expression, the list has all that is within it. -/
def Nested (es : List Expr) : Prop :=
  ∀ e ∈ es, e.within ⊆ es

namespace Nested

variable {es es' : List Expr}

theorem nil : Nested [] :=
  fun _ h => nomatch h

theorem append (h : Nested es) (h' : Nested es') : Nested (es ++ es') := by
  intro e he
  rcases List.mem_append.1 he with he | he
  · exact List.subset_append_of_subset_left _ (h e he)
  · exact List.subset_append_of_subset_right _ (h' e he)

theorem flatMap {α : Type} {f : α → List Expr} (h : ∀ a, Nested (f a)) (as : List α) :
    Nested (as.flatMap f) := by
  intro e he x hx
  obtain ⟨a, ha, he⟩ := List.mem_flatMap.1 he
  exact List.mem_flatMap.2 ⟨a, ha, h a e he hx⟩

/-- What is inside an expression, and the expression itself. -/
theorem within {e : Expr} (h : Nested es) (he : e.within = es ++ [e]) : Nested e.within := by
  rw [he]
  intro x hx
  rcases List.mem_append.1 hx with hx | hx
  · exact List.subset_append_of_subset_left _ (h x hx)
  · rw [List.mem_singleton.1 hx, he]
    exact List.Subset.refl _

end Nested

mutual

theorem within_nested : ∀ e : Expr, Nested e.within
  | .int _ _ | .float _ _ | .string _ _ | .bool _ _ | .ident _ _ | .this _ | .noneLit _ =>
    Nested.nil.within rfl
  | .interpolated _ parts => (partsWithin_nested parts).within rfl
  | .someOf _ inner => (within_nested inner).within rfl
  | .binary _ _ left right => ((within_nested left).append (within_nested right)).within rfl
  | .unary _ _ operand => (within_nested operand).within rfl
  | .assign _ target value => ((within_nested target).append (within_nested value)).within rfl
  | .call _ callee args => ((within_nested callee).append (exprsWithin_nested args)).within rfl
  | .member _ object _ _ => (within_nested object).within rfl
  | .index _ object index => ((within_nested object).append (within_nested index)).within rfl
  | .new _ _ _ args => (exprsWithin_nested args).within rfl
  | .array _ items => (exprsWithin_nested items).within rfl
  | .lambda _ _ _ body => (blockWithin_nested body).within rfl

theorem exprsWithin_nested : ∀ es : List Expr, Nested (exprsWithin es)
  | [] => .nil
  | e :: es => (within_nested e).append (exprsWithin_nested es)

theorem partsWithin_nested : ∀ parts : List Part, Nested (partsWithin parts)
  | [] => .nil
  | .text _ :: parts => partsWithin_nested parts
  | .hole e :: parts => (within_nested e).append (partsWithin_nested parts)

theorem stmtWithin_nested : ∀ stmt : Stmt, Nested stmt.within
  | .letStmt _ _ _ value _ _ => within_nested value
  | .returnStmt none _ => .nil
  | .returnStmt (some value) _ => within_nested value
  | .ifStmt condition body none _ => (within_nested condition).append (blockWithin_nested body)
  | .ifStmt condition body (some otherwise) _ =>
    ((within_nested condition).append (blockWithin_nested body)).append
      (stmtWithin_nested otherwise)
  | .whileStmt condition body _ => (within_nested condition).append (blockWithin_nested body)
  | .forStmt _ _ iterable body _ => (within_nested iterable).append (blockWithin_nested body)
  | .matchStmt scrutinee arms _ => (within_nested scrutinee).append (armsWithin_nested arms)
  | .block body => blockWithin_nested body
  | .expr value => within_nested value

theorem stmtsWithin_nested : ∀ stmts : List Stmt, Nested (stmtsWithin stmts)
  | [] => .nil
  | stmt :: stmts => (stmtWithin_nested stmt).append (stmtsWithin_nested stmts)

theorem blockWithin_nested : ∀ body : Block, Nested body.within
  | ⟨stmts, _⟩ => stmtsWithin_nested stmts

theorem armsWithin_nested : ∀ arms : List Arm, Nested (armsWithin arms)
  | [] => .nil
  | ⟨_, body, _⟩ :: arms => (blockWithin_nested body).append (armsWithin_nested arms)

end

/-- The expressions inside an expression: those within it but for the expression itself. -/
def Expr.inside : Expr → List Expr
  | .int _ _ | .float _ _ | .string _ _ | .bool _ _ | .ident _ _ | .this _ | .noneLit _ => []
  | .interpolated _ parts => partsWithin parts
  | .someOf _ inner => inner.within
  | .binary _ _ left right => left.within ++ right.within
  | .unary _ _ operand => operand.within
  | .assign _ target value => target.within ++ value.within
  | .call _ callee args => callee.within ++ exprsWithin args
  | .member _ object _ _ => object.within
  | .index _ object place => object.within ++ place.within
  | .new _ _ _ args => exprsWithin args
  | .array _ items => exprsWithin items
  | .lambda _ _ _ body => body.within

theorem within_eq (e : Expr) : e.within = e.inside ++ [e] := by
  cases e <;> rfl

theorem inside_nested (e : Expr) : Nested e.inside := by
  cases e with
  | int | float | string | bool | ident | this | noneLit => exact .nil
  | interpolated node parts => exact partsWithin_nested parts
  | someOf node inner => exact within_nested inner
  | binary node op left right => exact (within_nested left).append (within_nested right)
  | unary node op operand => exact within_nested operand
  | assign node target value => exact (within_nested target).append (within_nested value)
  | call node callee args => exact (within_nested callee).append (exprsWithin_nested args)
  | member node object name nameSpan => exact within_nested object
  | index node object place => exact (within_nested object).append (within_nested place)
  | new node className classSpan args => exact exprsWithin_nested args
  | array node items => exact exprsWithin_nested items
  | lambda node params ret body => exact blockWithin_nested body

theorem inside_subset_within (e : Expr) : e.inside ⊆ e.within := by
  rw [within_eq]
  exact List.subset_append_left _ _

/-- With an expression, a module has all that is within it. -/
theorem exprs_nested (m : Module) : Nested m.exprs := by
  have hf (fs : List FunctionDecl) : Nested (fs.flatMap (·.body.within)) :=
    .flatMap (fun f => blockWithin_nested f.body) fs
  refine .append (.flatMap (fun c => ?_) m.decls.classes) (hf m.decls.functions)
  exact (exprsWithin_nested c.initials).append (hf c.methods)

end MgLang
