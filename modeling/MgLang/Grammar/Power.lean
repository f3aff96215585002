import MgLang.Syntax.Expr
import MgLang.Token.Kind
/-!
# Binding power

How strongly an operator holds on to what stands left of it. Reading an expression at some power
takes every operator that binds more strongly than that power and leaves the others to the reader
that asked for it. `TokenKind.continuation?` and `Continuation.power` are what
`create_token_lookups` tells `Parser::led`.
-/

namespace MgLang

/-- The levels of binding, weakest first (`BindingPower`). -/
inductive Power where
  | default | comma | assignment | logicalOr | logicalAnd | equality | relational
  | additive | multiplicative | unary | call | member | primary
deriving DecidableEq, Repr, Inhabited

namespace Power

/-- Every level with the name it is shown by, weakest first. -/
def names : List (Power × String) :=
  [(default, "Default"), (comma, "Comma"), (assignment, "Assignment"),
   (logicalOr, "LogicalOr"), (logicalAnd, "LogicalAnd"), (equality, "Equality"),
   (relational, "Relational"), (additive, "Additive"), (multiplicative, "Multiplicative"),
   (unary, "Unary"), (call, "Call"), (member, "Member"), (primary, "Primary")]

/-- The level of that name. -/
def ofName? (name : String) : Option Power :=
  (names.find? fun e => e.2 == name).map (·.1)

/-- The place of a level among all of them. -/
def level : Power → Nat
  | default => 0
  | comma => 1
  | assignment => 2
  | logicalOr => 3
  | logicalAnd => 4
  | equality => 5
  | relational => 6
  | additive => 7
  | multiplicative => 8
  | unary => 9
  | call => 10
  | member => 11
  | primary => 12

instance : LE Power := ⟨fun p q => p.level ≤ q.level⟩

instance : LT Power := ⟨fun p q => p.level < q.level⟩

instance (p q : Power) : Decidable (p ≤ q) := inferInstanceAs (Decidable (p.level ≤ q.level))

instance (p q : Power) : Decidable (p < q) := inferInstanceAs (Decidable (p.level < q.level))

end Power

/-- What can follow a complete expression and make a larger one of it. -/
inductive Continuation where
  /-- `= value`. -/
  | assign
  /-- An operator and its right operand. -/
  | binary (op : BinaryOp)
  /-- Arguments in parentheses. -/
  | call
  /-- An index in brackets. -/
  | index
  /-- A point and the name of a member. -/
  | member
deriving DecidableEq, Repr

/-- How strongly an operator binds. -/
def BinaryOp.power : BinaryOp → Power
  | .or => .logicalOr
  | .and => .logicalAnd
  | .eq | .notEq => .equality
  | .less | .lessEq | .greater | .greaterEq => .relational
  | .add | .sub => .additive
  | .mul | .div | .mod => .multiplicative

/-- How strongly a continuation binds. -/
def Continuation.power : Continuation → Power
  | assign => .assignment
  | binary op => op.power
  | call | index => .call
  | member => .member

/-- The continuation that a token starts. -/
def TokenKind.continuation? : TokenKind → Option Continuation
  | assignment => some .assign
  | or => some (.binary .or)
  | and => some (.binary .and)
  | equals => some (.binary .eq)
  | notEquals => some (.binary .notEq)
  | less => some (.binary .less)
  | lessEquals => some (.binary .lessEq)
  | greater => some (.binary .greater)
  | greaterEquals => some (.binary .greaterEq)
  | plus => some (.binary .add)
  | dash => some (.binary .sub)
  | star => some (.binary .mul)
  | slash => some (.binary .div)
  | percent => some (.binary .mod)
  | openParen => some .call
  | openBracket => some .index
  | dot => some .member
  | _ => none

end MgLang
