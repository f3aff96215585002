import MgLang.Proofs.Lossless
import MgLang.Proofs.Renumber
/-!
# Later places

A text that starts later in its file has the same tree, in which all places are later.
`Expr.shift` and its companions move the spans of a tree and leave its numbers alone, and
`Diagnostic.moved` moves a fault. A move by nothing is none (`shift_zero`).

One kind of fault stays where it is: that no token starts with some character is found before the
places of the text are known.
-/

namespace MgLang

/-! ### Faults -/

namespace Diagnostic

/-- The fault of a text that starts `k` bytes later. -/
def moved (k : Nat) (d : Diagnostic) : Diagnostic :=
  match d.cause with
  | .unrecognisedToken _ => d
  | _ => { d with span := d.span.shift k }

theorem moved_zero (d : Diagnostic) : d.moved 0 = d := by
  unfold moved
  split <;> rfl

/-- What a lexer reports stays where it is. -/
theorem moved_of_tokenize {file : String} {text : List Char} {d : Diagnostic}
    (h : tokenize file text = .error d) (k : Nat) : d.moved k = d := by
  unfold tokenize at h
  split at h
  · next d' hd =>
    cases h
    obtain ⟨_, _, _, -, -, -, rfl⟩ := exists_of_tokensFrom_error hd
    rfl
  · cases h

end Diagnostic

/-! ### Trees -/

/-- The node with a later span. -/
def Node.shift (k : Nat) (n : Node) : Node := { n with span := n.span.shift k }

/-- The parameter with a later span. -/
def Param.shift (k : Nat) (p : Param) : Param := { p with span := p.span.shift k }

/-- The pattern with a later span. -/
def ArmPattern.shift (k : Nat) : ArmPattern → ArmPattern
  | .some binding span => .some binding (span.shift k)
  | .none => .none
  | .wildcard => .wildcard

mutual

/-- The expression with later spans. -/
def Expr.shift (k : Nat) : Expr → Expr
  | .int node value => .int (node.shift k) value
  | .float node numeral => .float (node.shift k) numeral
  | .string node value => .string (node.shift k) value
  | .bool node value => .bool (node.shift k) value
  | .interpolated node parts => .interpolated (node.shift k) (shiftParts k parts)
  | .ident node name => .ident (node.shift k) name
  | .this node => .this (node.shift k)
  | .noneLit node => .noneLit (node.shift k)
  | .someOf node inner => .someOf (node.shift k) (inner.shift k)
  | .binary node op left right => .binary (node.shift k) op (left.shift k) (right.shift k)
  | .unary node op operand => .unary (node.shift k) op (operand.shift k)
  | .assign node target value => .assign (node.shift k) (target.shift k) (value.shift k)
  | .call node callee args => .call (node.shift k) (callee.shift k) (shiftExprs k args)
  | .member node object name nameSpan =>
    .member (node.shift k) (object.shift k) name (nameSpan.shift k)
  | .index node object index => .index (node.shift k) (object.shift k) (index.shift k)
  | .new node className classSpan args =>
    .new (node.shift k) className (classSpan.shift k) (shiftExprs k args)
  | .array node items => .array (node.shift k) (shiftExprs k items)
  | .lambda node params ret body =>
    .lambda (node.shift k) (params.map (·.shift k)) ret (body.shift k)

/-- The expressions with later spans. -/
def shiftExprs (k : Nat) : List Expr → List Expr
  | [] => []
  | e :: es => e.shift k :: shiftExprs k es

/-- The pieces of an interpolated string with later spans. -/
def shiftParts (k : Nat) : List Part → List Part
  | [] => []
  | .text value :: parts => .text value :: shiftParts k parts
  | .hole e :: parts => .hole (e.shift k) :: shiftParts k parts

/-- The statement with later spans. -/
def Stmt.shift (k : Nat) : Stmt → Stmt
  | .letStmt name mutable ty value nameSpan span =>
    .letStmt name mutable ty (value.shift k) (nameSpan.shift k) (span.shift k)
  | .returnStmt none span => .returnStmt none (span.shift k)
  | .returnStmt (some value) span => .returnStmt (some (value.shift k)) (span.shift k)
  | .ifStmt condition body none span =>
    .ifStmt (condition.shift k) (body.shift k) none (span.shift k)
  | .ifStmt condition body (some otherwise) span =>
    .ifStmt (condition.shift k) (body.shift k) (some (otherwise.shift k)) (span.shift k)
  | .whileStmt condition body span =>
    .whileStmt (condition.shift k) (body.shift k) (span.shift k)
  | .forStmt name nameSpan iterable body span =>
    .forStmt name (nameSpan.shift k) (iterable.shift k) (body.shift k) (span.shift k)
  | .matchStmt scrutinee arms span =>
    .matchStmt (scrutinee.shift k) (shiftArms k arms) (span.shift k)
  | .block body => .block (body.shift k)
  | .expr value => .expr (value.shift k)

/-- The statements with later spans. -/
def shiftStmts (k : Nat) : List Stmt → List Stmt
  | [] => []
  | stmt :: stmts => stmt.shift k :: shiftStmts k stmts

/-- The block with later spans. -/
def Block.shift (k : Nat) : Block → Block
  | ⟨stmts, span⟩ => ⟨shiftStmts k stmts, span.shift k⟩

/-- The arms with later spans. -/
def shiftArms (k : Nat) : List Arm → List Arm
  | [] => []
  | ⟨pattern, body, span⟩ :: arms =>
    ⟨pattern.shift k, body.shift k, span.shift k⟩ :: shiftArms k arms

end

/-! ### Declarations -/

/-- The import with a later span. -/
def Using.shift (k : Nat) (u : Using) : Using := { u with span := u.span.shift k }

/-- The function with later spans. -/
def FunctionDecl.shift (k : Nat) (f : FunctionDecl) : FunctionDecl :=
  { f with params := f.params.map (·.shift k), body := f.body.shift k,
           nameSpan := f.nameSpan.shift k, span := f.span.shift k }

/-- The field with later spans. -/
def FieldDecl.shift (k : Nat) (f : FieldDecl) : FieldDecl :=
  { f with initial := f.initial.map (·.shift k), span := f.span.shift k }

/-- The class with later spans. -/
def ClassDecl.shift (k : Nat) (c : ClassDecl) : ClassDecl :=
  { c with fields := c.fields.map (·.shift k), methods := c.methods.map (·.shift k),
           nameSpan := c.nameSpan.shift k, span := c.span.shift k }

/-- The declarations with later spans. -/
def Declarations.shift (k : Nat) (d : Declarations) : Declarations where
  usings := d.usings.map (·.shift k)
  functions := d.functions.map (·.shift k)
  classes := d.classes.map (·.shift k)

/-! ### What moves along -/

theorem Expr.node_shift (k : Nat) (e : Expr) : (e.shift k).node = e.node.shift k := by
  cases e <;> rfl

theorem Expr.span_shift (k : Nat) (e : Expr) : (e.shift k).span = e.span.shift k := by
  rw [span, node_shift]
  rfl

/-! ### No move -/

theorem map_eq_self {α : Type} {f : α → α} (h : ∀ a, f a = a) (as : List α) : as.map f = as := by
  rw [funext h]
  exact List.map_id as

theorem Param.shift_zero (p : Param) : p.shift 0 = p := rfl

theorem ArmPattern.shift_zero (p : ArmPattern) : p.shift 0 = p := by
  cases p <;> rfl

mutual

theorem shift_zero : ∀ e : Expr, e.shift 0 = e
  | .int _ _ | .float _ _ | .string _ _ | .bool _ _ | .ident _ _ | .this _ | .noneLit _ => rfl
  | .interpolated _ parts => by
    rw [Expr.shift, shiftParts_zero parts]
    rfl
  | .someOf _ inner => by
    rw [Expr.shift, shift_zero inner]
    rfl
  | .binary _ _ left right => by
    rw [Expr.shift, shift_zero left, shift_zero right]
    rfl
  | .unary _ _ operand => by
    rw [Expr.shift, shift_zero operand]
    rfl
  | .assign _ target value => by
    rw [Expr.shift, shift_zero target, shift_zero value]
    rfl
  | .call _ callee args => by
    rw [Expr.shift, shift_zero callee, shiftExprs_zero args]
    rfl
  | .member _ object _ _ => by
    rw [Expr.shift, shift_zero object]
    rfl
  | .index _ object index => by
    rw [Expr.shift, shift_zero object, shift_zero index]
    rfl
  | .new _ _ _ args => by
    rw [Expr.shift, shiftExprs_zero args]
    rfl
  | .array _ items => by
    rw [Expr.shift, shiftExprs_zero items]
    rfl
  | .lambda _ params _ body => by
    rw [Expr.shift, block_shift_zero body, map_eq_self Param.shift_zero params]
    rfl

theorem shiftExprs_zero : ∀ es : List Expr, shiftExprs 0 es = es
  | [] => rfl
  | e :: es => by rw [shiftExprs, shift_zero e, shiftExprs_zero es]

theorem shiftParts_zero : ∀ ps : List Part, shiftParts 0 ps = ps
  | [] => rfl
  | .text _ :: ps => by rw [shiftParts, shiftParts_zero ps]
  | .hole e :: ps => by rw [shiftParts, shift_zero e, shiftParts_zero ps]

theorem stmt_shift_zero : ∀ s : Stmt, s.shift 0 = s
  | .letStmt _ _ _ value _ _ => by
    rw [Stmt.shift, shift_zero value]
    rfl
  | .returnStmt none _ => rfl
  | .returnStmt (some value) _ => by
    rw [Stmt.shift, shift_zero value]
    rfl
  | .ifStmt condition body none _ | .whileStmt condition body _ => by
    rw [Stmt.shift, shift_zero condition, block_shift_zero body]
    rfl
  | .ifStmt condition body (some otherwise) _ => by
    rw [Stmt.shift, shift_zero condition, block_shift_zero body, stmt_shift_zero otherwise]
    rfl
  | .forStmt _ _ iterable body _ => by
    rw [Stmt.shift, shift_zero iterable, block_shift_zero body]
    rfl
  | .matchStmt scrutinee arms _ => by
    rw [Stmt.shift, shift_zero scrutinee, shiftArms_zero arms]
    rfl
  | .block body => by rw [Stmt.shift, block_shift_zero body]
  | .expr value => by rw [Stmt.shift, shift_zero value]

theorem shiftStmts_zero : ∀ ss : List Stmt, shiftStmts 0 ss = ss
  | [] => rfl
  | s :: ss => by rw [shiftStmts, stmt_shift_zero s, shiftStmts_zero ss]

theorem block_shift_zero : ∀ b : Block, b.shift 0 = b
  | ⟨stmts, _⟩ => by
    rw [Block.shift, shiftStmts_zero stmts]
    rfl

theorem shiftArms_zero : ∀ as : List Arm, shiftArms 0 as = as
  | [] => rfl
  | ⟨pattern, body, _⟩ :: arms => by
    rw [shiftArms, pattern.shift_zero, block_shift_zero body, shiftArms_zero arms]
    rfl

end

theorem FunctionDecl.shift_zero (f : FunctionDecl) : f.shift 0 = f := by
  rw [shift, map_eq_self Param.shift_zero, block_shift_zero]
  rfl

theorem FieldDecl.shift_zero (f : FieldDecl) : f.shift 0 = f := by
  have hi : f.initial.map (·.shift 0) = f.initial := by
    rw [funext MgLang.shift_zero]
    exact Option.map_id'
  rw [shift, hi]
  rfl

theorem ClassDecl.shift_zero (c : ClassDecl) : c.shift 0 = c := by
  rw [shift, map_eq_self FieldDecl.shift_zero, map_eq_self FunctionDecl.shift_zero]
  rfl

theorem Declarations.shift_zero (d : Declarations) : d.shift 0 = d := by
  rw [shift, map_eq_self FunctionDecl.shift_zero, map_eq_self ClassDecl.shift_zero,
    map_eq_self (f := (Using.shift 0 ·)) fun _ => rfl]

end MgLang
