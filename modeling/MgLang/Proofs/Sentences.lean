import MgLang.Grammar.Body
import MgLang.Proofs.Printing
/-!
# The grammar as a relation

`ExprSentence p ts e` says that the tokens `ts` are an expression whose tree is `e`, and that no
operator of it, brackets apart, binds more weakly than `p`. There is one rule for each form, and an
operand stands at the level that its place asks for:

| form | level | left operand | right operand |
|---|---|---|---|
| `target = value` | assignment | stronger than an assignment | assignment |
| `left op right` | that of `op` | that of `op` | stronger than `op` |
| `op operand` | unary | | unary |
| `callee(..)`, `object[..]`, `object.name` | call | call | |
| everything else | primary | | |

So assignments group to the right and operators between two operands to the left. Parentheses raise
what is between them to the strongest level and leave no node behind. A function value contains
statements, which is why there are relations for types and statements too. The number and the span
of an expression are not part of what its tokens say.
-/

namespace MgLang

/-! ### Levels -/

/-- The weakest level at which everything binds more strongly than `p`. A sign stands before its
operand, so nothing on its left competes for that operand: at a power as strong as that of a sign,
a sign may still come first. -/
def Power.above : Power → Power
  | .default | .comma => .assignment
  | .assignment => .logicalOr
  | .logicalOr => .logicalAnd
  | .logicalAnd => .equality
  | .equality => .relational
  | .relational => .additive
  | .additive => .multiplicative
  | .multiplicative | .unary | .call | .member | .primary => .unary

namespace Power

theorem above_le_unary (p : Power) : p.above ≤ .unary := by
  cases p <;> decide

/-- The operators that bind more strongly than `p` are at the level above `p`. -/
theorem above_le_of_lt {p q : Power} (h : p < q) (ha : .assignment ≤ q) (hu : q ≤ .unary) :
    p.above ≤ q := by
  revert h ha hu
  cases p <;> cases q <;> decide

end Power

/-! ### Rows of sentences -/

section Rows

variable {α : Type}

/-- A mark that may be left out, and whether it is there. -/
inductive MarkSentence (kind : TokenKind) : List Token → Bool → Prop where
  | absent : MarkSentence kind [] false
  | present {t : Token} (ht : t.kind = kind) : MarkSentence kind [t] true

/-- A sentence that may be left out. -/
inductive Optional (P : List Token → α → Prop) : List Token → Option α → Prop where
  | absent : Optional P [] none
  | present {ts : List Token} {a : α} (ha : P ts a) : Optional P ts (some a)

/-- Sentences with commas between them, up to and including a token of kind `close`. A comma may
stand after the last. -/
inductive Separated (close : TokenKind) (P : List Token → α → Prop) :
    List Token → List α → Prop where
  | nil {t : Token} (ht : t.kind = close) : Separated close P [t] []
  | last {ts : List Token} {a : α} {t : Token} (ha : P ts a) (ht : t.kind = close) :
      Separated close P (ts ++ [t]) [a]
  | cons {ts us : List Token} {a : α} {as : List α} {t : Token} (ha : P ts a)
      (ht : t.kind = .comma) (has : Separated close P us as) :
      Separated close P (ts ++ t :: us) (a :: as)

/-- Sentences one after the other, up to and including a token of kind `close`. -/
inductive Closed (close : TokenKind) (P : List Token → α → Prop) :
    List Token → List α → Prop where
  | nil {t : Token} (ht : t.kind = close) : Closed close P [t] []
  | cons {ts us : List Token} {a : α} {as : List α} (ha : P ts a) (has : Closed close P us as) :
      Closed close P (ts ++ us) (a :: as)

end Rows

/-! ### Types, parameters and patterns -/

/-- The tokens are the type. -/
inductive TySentence : List Token → Ty → Prop where
  | primitive {t : Token} {ty : Ty} (ht : primitiveTy? t.kind = some ty) : TySentence [t] ty
  | named {t : Token} (ht : t.kind = .identifier) : TySentence [t] (.named t.value)
  | wrapped {t left right : Token} {wrap : Ty → Ty} {ts : List Token} {inner : Ty}
      (ht : t.kind = .identifier) (hw : wrapper? t.value = some wrap) (hl : left.kind = .less)
      (hi : TySentence ts inner) (hr : right.kind = .greater) :
      TySentence (t :: left :: (ts ++ [right])) (wrap inner)
  | array {ts : List Token} {ty : Ty} {left right : Token} (hi : TySentence ts ty)
      (hl : left.kind = .openBracket) (hr : right.kind = .closeBracket) :
      TySentence (ts ++ [left, right]) (.array ty)
  | fn {t left arrow : Token} {ts us : List Token} {params : List Ty} {ret : Ty}
      (ht : t.kind = .kwFn) (hl : left.kind = .openParen)
      (hps : Separated .closeParen TySentence ts params) (ha : arrow.kind = .arrow)
      (hr : TySentence us ret) : TySentence (t :: left :: (ts ++ arrow :: us)) (.fn params ret)
  | procedure {t left : Token} {ts : List Token} {params : List Ty} (ht : t.kind = .kwFn)
      (hl : left.kind = .openParen) (hps : Separated .closeParen TySentence ts params) :
      TySentence (t :: left :: ts) (.fn params .void)

/-- The tokens are the return type of a function. -/
inductive ReturnSentence : List Token → Ty → Prop where
  | void : ReturnSentence [] .void
  | arrow {t : Token} {ts : List Token} {ty : Ty} (ht : t.kind = .arrow) (hty : TySentence ts ty) :
      ReturnSentence (t :: ts) ty

/-- The tokens are the type after the name of a variable. -/
inductive AnnotationSentence : List Token → Ty → Prop where
  | mk {t : Token} {ts : List Token} {ty : Ty} (ht : t.kind = .colon) (hty : TySentence ts ty) :
      AnnotationSentence (t :: ts) ty

/-- The tokens are a parameter. -/
inductive ParamSentence : List Token → Param → Prop where
  | mk {name colon : Token} {ts : List Token} {ty : Ty} {span : Span}
      (hn : name.kind = .identifier) (hc : colon.kind = .colon) (hty : TySentence ts ty) :
      ParamSentence (name :: colon :: ts) ⟨name.value, ty, span⟩

/-- The tokens are the parameters of a function in their parentheses. -/
inductive ParamsSentence : List Token → List Param → Prop where
  | mk {left : Token} {ts : List Token} {params : List Param} (hl : left.kind = .openParen)
      (hps : Separated .closeParen ParamSentence ts params) : ParamsSentence (left :: ts) params

/-- The tokens are what an arm of a `match` accepts. -/
inductive PatternSentence : List Token → ArmPattern → Prop where
  | some {t left name right : Token} (ht : t.kind = .kwSome) (hl : left.kind = .openParen)
      (hn : name.kind = .identifier) (hr : right.kind = .closeParen) :
      PatternSentence [t, left, name, right] (.some name.value name.span)
  | none {t : Token} (ht : t.kind = .kwNone) : PatternSentence [t] .none
  | wildcard {t : Token} (ht : t.kind = .identifier) (hv : t.value = "_") :
      PatternSentence [t] .wildcard

/-! ### Expressions and statements -/

mutual

/-- The tokens are the expression, and its operators bind at least as strongly as the level. -/
inductive ExprSentence : Power → List Token → Expr → Prop where
  | stronger {p q : Power} {ts : List Token} {e : Expr} (hpq : p ≤ q)
      (he : ExprSentence q ts e) : ExprSentence p ts e
  | assign {n : Node} {ts us : List Token} {t : Token} {target value : Expr}
      (hl : ExprSentence Power.assignment.above ts target) (ht : t.kind = .assignment)
      (hr : ExprSentence .assignment us value) :
      ExprSentence .assignment (ts ++ t :: us) (.assign n target value)
  | binary {n : Node} {op : BinaryOp} {ts us : List Token} {t : Token} {left right : Expr}
      (hl : ExprSentence op.power ts left) (ht : t.kind = op.kind)
      (hr : ExprSentence op.power.above us right) :
      ExprSentence op.power (ts ++ t :: us) (.binary n op left right)
  | unary {n : Node} {op : UnaryOp} {t : Token} {ts : List Token} {operand : Expr}
      (ht : t.kind = op.kind) (ho : ExprSentence .unary ts operand) :
      ExprSentence .unary (t :: ts) (.unary n op operand)
  | call {n : Node} {ts us : List Token} {t : Token} {callee : Expr} {args : List Expr}
      (hl : ExprSentence .call ts callee) (ht : t.kind = .openParen)
      (has : Separated .closeParen (ExprSentence .assignment) us args) :
      ExprSentence .call (ts ++ t :: us) (.call n callee args)
  | index {n : Node} {ts us : List Token} {t right : Token} {object index : Expr}
      (hl : ExprSentence .call ts object) (ht : t.kind = .openBracket)
      (hi : ExprSentence .assignment us index) (hr : right.kind = .closeBracket) :
      ExprSentence .call (ts ++ t :: (us ++ [right])) (.index n object index)
  | member {n : Node} {ts : List Token} {t name : Token} {object : Expr}
      (hl : ExprSentence .call ts object) (ht : t.kind = .dot) (hn : name.kind = .identifier) :
      ExprSentence .call (ts ++ [t, name]) (.member n object name.value name.span)
  | literal {n : Node} {t : Token} {f : Node → Expr} (ht : t.literal = .ok f) :
      ExprSentence .primary [t] (f n)
  | interpolated {n : Node} {t : Token} {parts : List Part} (ht : t.kind = .interpolated)
      (hps : PartsSentence (Piece.split 0 t.value.toList) parts) :
      ExprSentence .primary [t] (.interpolated n parts)
  | someOf {n : Node} {t left right : Token} {ts : List Token} {inner : Expr}
      (ht : t.kind = .kwSome) (hl : left.kind = .openParen)
      (hi : ExprSentence .assignment ts inner) (hr : right.kind = .closeParen) :
      ExprSentence .primary (t :: left :: (ts ++ [right])) (.someOf n inner)
  | parentheses {left right : Token} {ts : List Token} {e : Expr} (hl : left.kind = .openParen)
      (he : ExprSentence .assignment ts e) (hr : right.kind = .closeParen) :
      ExprSentence .primary (left :: (ts ++ [right])) e
  | array {n : Node} {t : Token} {ts : List Token} {items : List Expr} (ht : t.kind = .openBracket)
      (his : Separated .closeBracket (ExprSentence .assignment) ts items) :
      ExprSentence .primary (t :: ts) (.array n items)
  | new {n : Node} {t name left : Token} {ts : List Token} {args : List Expr}
      (ht : t.kind = .kwNew) (hn : name.kind = .identifier) (hl : left.kind = .openParen)
      (has : Separated .closeParen (ExprSentence .assignment) ts args) :
      ExprSentence .primary (t :: name :: left :: ts) (.new n name.value name.span args)
  | lambda {n : Node} {t : Token} {ts us vs : List Token} {params : List Param} {ret : Ty}
      {body : Block} (ht : t.kind = .kwFn) (hps : ParamsSentence ts params)
      (hret : ReturnSentence us ret) (hb : BlockSentence vs body) :
      ExprSentence .primary (t :: (ts ++ (us ++ vs))) (.lambda n params ret body)

/-- The pieces of the body of an interpolated string are its parts. The text of a hole is an
expression. -/
inductive PartsSentence : List Piece → List Part → Prop where
  | nil : PartsSentence [] []
  | text {raw : List Char} {ps : List Piece} {parts : List Part} (hps : PartsSentence ps parts) :
      PartsSentence (.text raw :: ps) (.text (.ofList (unescape raw)) :: parts)
  | hole {offset k : Nat} {source : List Char} {ps : List Piece} {parts : List Part}
      {file : String} {stream : TokenStream} {e : Expr} (hs : tokenize file source = .ok stream)
      (he : ExprSentence .assignment (stream.shift k).tokens e) (hps : PartsSentence ps parts) :
      PartsSentence (.hole offset source :: ps) (.hole e :: parts)

/-- The tokens are the block. -/
inductive BlockSentence : List Token → Block → Prop where
  | mk {left : Token} {ts : List Token} {stmts : List Stmt} {span : Span}
      (hl : left.kind = .openCurly) (hs : Closed .closeCurly StmtSentence ts stmts) :
      BlockSentence (left :: ts) ⟨stmts, span⟩

/-- The tokens are the statement. -/
inductive StmtSentence : List Token → Stmt → Prop where
  | letStmt {t name equals semicolon : Token} {ts us vs : List Token} {mutable : Bool}
      {ty : Option Ty} {value : Expr} {span : Span} (ht : t.kind = .kwLet)
      (hm : MarkSentence .kwMut ts mutable) (hn : name.kind = .identifier)
      (hty : Optional AnnotationSentence us ty) (he : equals.kind = .assignment)
      (hv : ExprSentence .assignment vs value) (hs : semicolon.kind = .semicolon) :
      StmtSentence (t :: (ts ++ name :: (us ++ equals :: (vs ++ [semicolon]))))
        (.letStmt name.value mutable ty value name.span span)
  | returnStmt {t semicolon : Token} {ts : List Token} {value : Option Expr} {span : Span}
      (ht : t.kind = .kwReturn) (hv : Optional (ExprSentence .assignment) ts value)
      (hs : semicolon.kind = .semicolon) :
      StmtSentence (t :: (ts ++ [semicolon])) (.returnStmt value span)
  | branch {ts : List Token} {s : Stmt} (hs : IfSentence ts s) : StmtSentence ts s
  | whileStmt {t : Token} {ts us : List Token} {condition : Expr} {body : Block} {span : Span}
      (ht : t.kind = .kwWhile) (hc : ExprSentence .assignment ts condition)
      (hb : BlockSentence us body) :
      StmtSentence (t :: (ts ++ us)) (.whileStmt condition body span)
  | forStmt {t name word : Token} {ts us vs ws : List Token} {parenthesised : Bool}
      {iterable : Expr} {body : Block} {span : Span} (ht : t.kind = .kwFor)
      (hl : MarkSentence .openParen ts parenthesised) (hn : name.kind = .identifier)
      (hw : word.kind = .kwIn) (hi : ExprSentence .assignment us iterable)
      (hr : MarkSentence .closeParen vs parenthesised) (hb : BlockSentence ws body) :
      StmtSentence (t :: (ts ++ name :: word :: (us ++ (vs ++ ws))))
        (.forStmt name.value name.span iterable body span)
  | matchStmt {t left : Token} {ts us : List Token} {scrutinee : Expr} {arms : List Arm}
      {span : Span} (ht : t.kind = .kwMatch) (hs : ExprSentence .assignment ts scrutinee)
      (hl : left.kind = .openCurly) (has : Closed .closeCurly ArmSentence us arms) :
      StmtSentence (t :: (ts ++ left :: us)) (.matchStmt scrutinee arms span)
  | block {ts : List Token} {body : Block} (hb : BlockSentence ts body) :
      StmtSentence ts (.block body)
  | expr {ts : List Token} {semicolon : Token} {value : Expr}
      (hv : ExprSentence .assignment ts value) (hs : semicolon.kind = .semicolon) :
      StmtSentence (ts ++ [semicolon]) (.expr value)

/-- The tokens are the branch. -/
inductive IfSentence : List Token → Stmt → Prop where
  | mk {t : Token} {ts us vs : List Token} {condition : Expr} {body : Block}
      {otherwise : Option Stmt} {span : Span} (ht : t.kind = .kwIf)
      (hc : ExprSentence .assignment ts condition) (hb : BlockSentence us body)
      (ho : Optional ElseSentence vs otherwise) :
      IfSentence (t :: (ts ++ (us ++ vs))) (.ifStmt condition body otherwise span)

/-- The tokens are what a branch does otherwise. After `else` stands a block or another branch. -/
inductive ElseSentence : List Token → Stmt → Prop where
  | block {t : Token} {ts : List Token} {body : Block} (ht : t.kind = .kwElse)
      (hb : BlockSentence ts body) : ElseSentence (t :: ts) (.block body)
  | branch {t : Token} {ts : List Token} {s : Stmt} (ht : t.kind = .kwElse)
      (hs : IfSentence ts s) : ElseSentence (t :: ts) s

/-- The tokens are what an arm does. An expression without braces is a block of its own. -/
inductive ArmBodySentence : List Token → Block → Prop where
  | block {ts : List Token} {body : Block} (hb : BlockSentence ts body) : ArmBodySentence ts body
  | expr {ts us : List Token} {value : Expr} {span : Span} {semicolon : Bool}
      (hv : ExprSentence .assignment ts value) (hs : MarkSentence .semicolon us semicolon) :
      ArmBodySentence (ts ++ us) ⟨[.expr value], span⟩

/-- The tokens are the arm. A comma may stand after it. -/
inductive ArmSentence : List Token → Arm → Prop where
  | mk {ts us vs : List Token} {t : Token} {pattern : ArmPattern} {body : Block} {comma : Bool}
      {span : Span} (hp : PatternSentence ts pattern) (ht : t.kind = .fatArrow)
      (hb : ArmBodySentence us body) (hc : MarkSentence .comma vs comma) :
      ArmSentence (ts ++ t :: (us ++ vs)) ⟨pattern, body, span⟩

end

end MgLang
