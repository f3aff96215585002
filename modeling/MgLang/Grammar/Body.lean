import MgLang.Grammar.Annotation
import MgLang.Grammar.Template
import MgLang.Syntax.Literal
/-!
# Reading function bodies

Expressions and statements contain each other, so they are read by one family of functions. Each
reads from a cursor and says by the type of its result that it moved on, which bounds the recursion
by the weight of what is left.

The parser looks its readers up in tables, by the kind of a token (`create_token_lookups`). Each
table is a `match` here:

* `readOperand` — what can begin an expression: `parse_primary_expr`, `parse_interpolated_expr`,
  `parse_some_expr`, `parse_prefix_expr`, `parse_grouping_expr`, `parse_array_expr`,
  `parse_new_expr`, `parse_lambda_expr`.
* `readContinuation` — what can follow an expression: `parse_assignment_expr`, `parse_binary_expr`,
  `parse_call_expr`, `parse_index_expr`, `parse_member_expr`. The loop of `parse_expr` is
  `readContinuations`.
* `readStmt` — statements: `parse_let_stmt`, `parse_return_stmt`, `parse_while_stmt`,
  `parse_for_stmt`, `parse_match_stmt`, `parse_block_stmt`, and `parse_if_stmt` as `readIf`.
-/

namespace MgLang

/-- The expression that a token is by itself. -/
def Token.literal (t : Token) : Except Diagnostic (Node → Expr) :=
  match t.kind with
  | .int =>
    match intValue? t.value with
    | some n => .ok (.int · n)
    | none => .error ⟨.numberParseError t.value, t.span⟩
  | .float => .ok (.float · t.value)
  | .string => .ok (.string · t.value)
  | .kwTrue => .ok (.bool · true)
  | .kwFalse => .ok (.bool · false)
  | .kwNone => .ok .noneLit
  | .kwThis => .ok .this
  | .identifier => .ok (.ident · t.value)
  | _ => .error ⟨.unexpectedToken t.value, t.span⟩

/-- Reads an expression of one token (`parse_primary_expr`). Any other token is stepped over before
it is reported. -/
def readLiteral (c : Cursor) : Step 1 c Expr :=
  match h : c.current.literal with
  | .error d => .fail d c.advance
  | .ok f =>
    (c.take (by intro he; simp [Token.literal, show c.current.kind = .eof from he] at h)).andThen
      fun token c _ => c.build token.span f

/-- Reads parameters separated by commas, up to and including the parenthesis that closes them. -/
def readParamList (c : Cursor) : Step 1 c (List Param) :=
  if c.kind = .closeParen then (c.expect .closeParen).map fun _ => []
  else
    (c.expectName "expected parameter name").andThen fun name c _ =>
      (c.expect .colon).andThen fun _ c _ =>
        (readTy c .default).andThen fun ty c _ =>
          let param : Param := ⟨name.value, ty, c.spanFrom name.span.start⟩
          (c.accept .comma).andThen fun comma c _ =>
            if comma then (readParamList c).map fun params => param :: params
            else (c.expect .closeParen).map fun _ => [param]
termination_by c.weight

/-- Reads the parameters of a function in their parentheses (`parse_params`). -/
def readParams (c : Cursor) : Step 1 c (List Param) :=
  (c.expect .openParen).andThen fun _ c _ => readParamList c

/-- Reads what an arm of a `match` accepts (`parse_pattern`). -/
def readArmPattern (c : Cursor) : Step 1 c ArmPattern :=
  match c.kind with
  | .kwSome =>
    (c.expect .kwSome).andThen fun _ c _ =>
      (c.expect .openParen).andThen fun _ c _ =>
        (c.expect .identifier).andThen fun binding c _ =>
          (c.expect .closeParen).map fun _ => .some binding.value binding.span
  | .kwNone => (c.expect .kwNone).map fun _ => .none
  | _ =>
    let failed := c.expected "expected `Some(..)`, `None` or `_` pattern"
    if c.current.value = "_" then (c.expectOr .identifier failed).map fun _ => .wildcard
    else .fail failed c

mutual

/-- Reads an expression and every operator after it that binds more strongly than `power`
(`parse_expr`). -/
def readExpr (c : Cursor) (power : Power) : Step 1 c Expr :=
  (readOperand c).andThen fun left c _ => readContinuations c power left
termination_by 8 * c.weight + 5

/-- Reads an expression up to the first operator that could follow it. -/
def readOperand (c : Cursor) : Step 1 c Expr :=
  match h : c.kind with
  | .int | .float | .string | .kwTrue | .kwFalse | .kwNone | .kwThis | .identifier =>
    readLiteral c
  | .interpolated => readInterpolated c h
  | .kwSome =>
    (c.expect .kwSome).andThen fun token c _ =>
      (c.expect .openParen).andThen fun _ c _ =>
        (readExpr c .default).andThen fun inner c _ =>
          (c.expect .closeParen).andThen fun _ c _ =>
            c.build (c.spanFrom token.span.start) fun n => .someOf n inner
  | .dash => readUnary c .dash .negate
  | .not => readUnary c .not .not
  | .openParen =>
    (c.expect .openParen).andThen fun _ c _ =>
      (readExpr c .default).andThen fun inner c _ =>
        (c.expect .closeParen).map fun _ => inner
  | .openBracket =>
    (c.expect .openBracket).andThen fun token c _ =>
      (readArgs c .closeBracket).andThen fun items c _ =>
        c.build (c.spanFrom token.span.start) fun n => .array n items
  | .kwNew =>
    (c.expect .kwNew).andThen fun token c _ =>
      (c.expectName "expected class name after `new`").andThen fun name c _ =>
        (c.expect .openParen).andThen fun _ c _ =>
          (readArgs c .closeParen).andThen fun args c _ =>
            c.build (c.spanFrom token.span.start) fun n => .new n name.value name.span args
  | .kwFn =>
    (c.expect .kwFn).andThen fun token c _ =>
      (readParams c).andThen fun params c _ =>
        (readReturnTy c).andThen fun ret c _ =>
          (readBlock c).andThen fun body c _ =>
            c.build (c.spanFrom token.span.start) fun n => .lambda n params ret body
  | _ => .fail c.unexpected c
termination_by 8 * c.weight + 4

/-- Reads an operator that stands before its operand (`parse_prefix_expr`). -/
def readUnary (c : Cursor) (kind : TokenKind) (op : UnaryOp) : Step 1 c Expr :=
  (c.expect kind).andThen fun token c _ =>
    (readExpr c .unary).andThen fun operand c _ =>
      c.build (token.span.cover operand.span) fun n => .unary n op operand
termination_by 8 * c.weight + 1

/-- Reads an interpolated string (`parse_interpolated_expr`). -/
def readInterpolated (c : Cursor) (h : c.kind = .interpolated) : Step 1 c Expr :=
  let pieces := Piece.split 0 c.current.value.toList
  ((c.takeInterpolated h).andThen fun token c' _ =>
    (readParts c' token pieces).andThen fun parts c' _ =>
      c'.build token.span fun n => .interpolated n parts).moved
termination_by 8 * c.weight + 1
decreasing_by
  have := Piece.totalWeight_split_le 0 c.current.value.toList
  simp only [String.length_toList] at this
  omega

/-- Reads the holes of the interpolated string `token` (`parse_expression_source` for each). A hole
is an expression of its own, whose places count from where it stands in the file; the body starts
after `$"`. -/
def readParts (c : Cursor) (token : Token) (pieces : List Piece) : Step 0 c (List Part) :=
  match pieces with
  | [] => .done c []
  | .text raw :: ps =>
    (readParts c token ps).map fun parts => .text (.ofList (unescape raw)) :: parts
  | .hole offset source :: ps =>
    match lexed : tokenize c.file source with
    | .error d => .fail d c
    | .ok stream =>
      let inner := Cursor.ofStream (stream.shift (token.span.start + 2 + offset)) c.nextId
      (Step.inside c ((readExpr inner .default).andThen fun value c _ =>
        (c.expectKind .eof c.unexpected).map fun _ => value)).andThen fun value c _ =>
          (readParts c token ps).map fun parts => .hole value :: parts
  | .unclosed :: _ =>
    .fail ⟨.unexpectedTokenDetailed token.value "unterminated `\x7b` in interpolated string",
      token.span⟩ c
termination_by 8 * Piece.totalWeight pieces + 6
decreasing_by
  · simp only [Piece.weight, Piece.totalWeight_cons]
    omega
  · have := weight_le_length lexed
    simp only [Piece.weight, Piece.totalWeight_cons,
      Cursor.weight_ofStream, TokenStream.weight_shift]
    omega
  · simp only [Piece.weight, Piece.totalWeight_cons]
    omega

/-- Reads what follows a complete expression, as long as it binds more strongly than `power`. -/
def readContinuations (c : Cursor) (power : Power) (left : Expr) : Step 0 c Expr :=
  match h : c.kind.continuation? with
  | none => .done c left
  | some k =>
    if k.power ≤ power then .done c left
    else
      ((readContinuation c k left (by intro he; simp [he, TokenKind.continuation?] at h)).andThen
        fun left c _ => readContinuations c power left).weaken
termination_by 8 * c.weight + 2

/-- Reads the continuation `k` of the expression `left`. -/
def readContinuation (c : Cursor) (k : Continuation) (left : Expr) (ne : c.kind ≠ .eof) :
    Step 1 c Expr :=
  (c.take ne).andThen fun _ c _ =>
    match k with
    | .assign =>
      ((readExpr c .comma).andThen fun value c _ =>
        c.build (left.span.cover value.span) fun n => .assign n left value).weaken
    | .binary op =>
      ((readExpr c op.power).andThen fun right c _ =>
        c.build (left.span.cover right.span) fun n => .binary n op left right).weaken
    | .call =>
      (readArgs c .closeParen).andThen fun args c _ =>
        c.build (c.spanFrom left.span.start) fun n => .call n left args
    | .index =>
      ((readExpr c .default).andThen fun index c _ =>
        (c.expect .closeBracket).andThen fun _ c _ =>
          c.build (c.spanFrom left.span.start) fun n => .index n left index).weaken
    | .member =>
      ((c.expectName "expected member name after `.`").andThen fun name c _ =>
        c.build (left.span.cover name.span) fun n => .member n left name.value name.span).weaken
termination_by 8 * c.weight + 1

/-- Reads expressions separated by commas, up to and including a token of kind `close`
(`parse_arguments`). A comma may stand after the last. -/
def readArgs (c : Cursor) (close : TokenKind) : Step 0 c (List Expr) :=
  if c.kind = close then (c.expectKind close c.unexpected).map fun _ => []
  else
    ((readExpr c .comma).andThen fun arg c _ =>
      (c.accept .comma).andThen fun comma c _ =>
        if comma then (readArgs c close).map fun args => arg :: args
        else (c.expectKind close c.unexpected).map fun _ => [arg]).weaken
termination_by 8 * c.weight + 6

/-- Reads statements between braces (`parse_block`). -/
def readBlock (c : Cursor) : Step 1 c Block :=
  (c.expect .openCurly).andThen fun token c _ =>
    (readStmts c).andThen fun stmts c _ => .done c ⟨stmts, c.spanFrom token.span.start⟩
termination_by 8 * c.weight + 3

/-- Reads statements up to and including the brace that closes them. -/
def readStmts (c : Cursor) : Step 1 c (List Stmt) :=
  match c.kind with
  | .closeCurly => (c.expect .closeCurly).map fun _ => []
  | .eof => .fail (c.expected "expected `\x7d` before end of file") c
  | _ =>
    (readStmt c).andThen fun stmt c _ => (readStmts c).map fun stmts => stmt :: stmts
termination_by 8 * c.weight + 7

/-- Reads a statement (`parse_stmt`). -/
def readStmt (c : Cursor) : Step 1 c Stmt :=
  match c.kind with
  | .kwLet =>
    (c.expect .kwLet).andThen fun token c _ =>
      (c.accept .kwMut).andThen fun mutable c _ =>
        (c.expectName "expected identifier during variable declaration").andThen fun name c _ =>
          (c.accept .colon).andThen fun colon c _ =>
            (if colon then (readTy c .default).weaken.map some else .done c none).andThen
              fun ty c _ =>
                (c.expectOr .assignment (c.expected "expected `=` and an initial value")).andThen
                  fun _ c _ =>
                    (readExpr c .default).andThen fun value c _ =>
                      (c.expect .semicolon).andThen fun _ c _ =>
                        .done c (.letStmt name.value mutable ty value name.span
                          (c.spanFrom token.span.start))
  | .kwReturn =>
    (c.expect .kwReturn).andThen fun token c _ =>
      (if c.kind = .semicolon then .done c none
        else (readExpr c .default).weaken.map some).andThen fun value c _ =>
          (c.expect .semicolon).andThen fun _ c _ =>
            .done c (.returnStmt value (c.spanFrom token.span.start))
  | .kwIf => readIf c
  | .kwWhile =>
    (c.expect .kwWhile).andThen fun token c _ =>
      (readExpr c .default).andThen fun condition c _ =>
        (readBlock c).andThen fun body c _ =>
          .done c (.whileStmt condition body (c.spanFrom token.span.start))
  | .kwFor =>
    (c.expect .kwFor).andThen fun token c _ =>
      (c.accept .openParen).andThen fun parenthesised c _ =>
        (c.expectName "expected loop variable").andThen fun name c _ =>
          (c.expect .kwIn).andThen fun _ c _ =>
            (readExpr c .default).andThen fun iterable c _ =>
              (if parenthesised then (c.expect .closeParen).weaken.map fun _ => ()
                else .done c ()).andThen fun _ c _ =>
                  (readBlock c).andThen fun body c _ =>
                    .done c (.forStmt name.value name.span iterable body
                      (c.spanFrom token.span.start))
  | .kwMatch =>
    (c.expect .kwMatch).andThen fun token c _ =>
      (readExpr c .default).andThen fun scrutinee c _ =>
        (c.expect .openCurly).andThen fun _ c _ =>
          (readArms c).andThen fun arms c _ =>
            .done c (.matchStmt scrutinee arms (c.spanFrom token.span.start))
  | .openCurly => (readBlock c).map .block
  | _ =>
    (readExpr c .default).andThen fun value c _ =>
      (c.expect .semicolon).map fun _ => .expr value
termination_by 8 * c.weight + 6

/-- Reads a branch, with the block or further branch after `else` (`parse_if_stmt`). -/
def readIf (c : Cursor) : Step 1 c Stmt :=
  (c.expect .kwIf).andThen fun token c _ =>
    (readExpr c .default).andThen fun condition c _ =>
      (readBlock c).andThen fun body c _ =>
        (c.accept .kwElse).andThen fun otherwise c _ =>
          (if otherwise then
              if c.kind = .kwIf then (readIf c).weaken.map some
              else (readBlock c).weaken.map fun b => some (.block b)
            else .done c none).andThen fun otherwise c _ =>
              .done c (.ifStmt condition body otherwise (c.spanFrom token.span.start))
termination_by 8 * c.weight + 5

/-- Reads the arms of a `match`, up to and including the brace that closes them
(`parse_match_stmt`). -/
def readArms (c : Cursor) : Step 1 c (List Arm) :=
  if c.kind = .closeCurly then (c.expect .closeCurly).map fun _ => []
  else
    (readArm c).andThen fun arm c _ =>
      (c.accept .comma).andThen fun _ c _ => (readArms c).map fun arms => arm :: arms
termination_by 8 * c.weight + 7

/-- Reads an arm of a `match`. An expression without braces is a block of its own. -/
def readArm (c : Cursor) : Step 1 c Arm :=
  let start := c.start
  (readArmPattern c).andThen fun pattern c _ =>
    (c.expect .fatArrow).andThen fun _ c _ =>
      (if c.kind = .openCurly then readBlock c
        else
          (readExpr c .default).andThen fun value c _ =>
            (c.accept .semicolon).map fun _ => ⟨[.expr value], value.span⟩).andThen
        fun body c _ => .done c ⟨pattern, body, c.spanFrom start⟩
termination_by 8 * c.weight + 6

end

end MgLang
