import MgLang.Grammar.Body
import MgLang.Syntax.Decl
/-!
# Reading source texts

A source text is a row of imports, functions and classes. At the top level a declaration is public
unless it is marked `priv`; inside a class it is private unless it is marked `pub`. `readItems` is
the loop of `parse`.
-/

namespace MgLang

/-- One declaration of a source text. -/
inductive Item where
  | directive (decl : Using)
  | function (decl : FunctionDecl)
  | classDecl (decl : ClassDecl)

/-- Adds a declaration after those of its kind. -/
def Declarations.add (d : Declarations) : Item → Declarations
  | .directive u => { d with usings := d.usings ++ [u] }
  | .function f => { d with functions := d.functions ++ [f] }
  | .classDecl c => { d with classes := d.classes ++ [c] }

/-- Reads a mark of visibility, if there is one (`parse_visibility`). -/
def readVisibility (c : Cursor) : Step 0 c (Option Bool) :=
  match c.kind with
  | .kwPub => ((c.expect .kwPub).map fun _ => some true).weaken
  | .kwPriv => ((c.expect .kwPriv).map fun _ => some false).weaken
  | _ => .done c none

/-- Reads the segments after the first one of a path, and adds them to it. -/
def readSegments (c : Cursor) (path : String) : Step 0 c String :=
  if c.kind = .dot then
    ((c.expect .dot).andThen fun _ c _ =>
      (c.expectName "expected module path segment").andThen fun segment c _ =>
        readSegments c (path ++ "." ++ segment.value)).weaken
  else .done c path
termination_by c.weight

/-- Reads an import (`parse_using`). -/
def readUsing (c : Cursor) : Step 1 c Using :=
  (c.expect .kwUsing).andThen fun token c _ =>
    (c.expectName "expected module path after `using`").andThen fun first c _ =>
      (readSegments c first.value).andThen fun path c _ =>
        (c.expect .semicolon).andThen fun _ c _ => .done c ⟨path, c.spanFrom token.span.start⟩

/-- Reads a function whose marks began at `start` (`parse_fn_decl`). -/
def readFunction (c : Cursor) (start : Nat) (isPublic isStatic : Bool) : Step 1 c FunctionDecl :=
  (c.expect .kwFn).andThen fun _ c _ =>
    (c.expectName "expected function name").andThen fun name c _ =>
      (readParams c).andThen fun params c _ =>
        (readReturnTy c).andThen fun ret c _ =>
          (readBlock c).andThen fun body c _ =>
            .done c
              { name := name.value, params, ret, body, isPublic, isStatic,
                nameSpan := name.span, span := c.spanFrom start }

/-- Reads a field whose marks began at `start` (`parse_field_decl`). -/
def readField (c : Cursor) (start : Nat) (isPublic isStatic : Bool) : Step 1 c FieldDecl :=
  (c.expect .identifier).andThen fun name c _ =>
    (c.expect .colon).andThen fun _ c _ =>
      (readTy c .default).andThen fun ty c _ =>
        (c.accept .assignment).andThen fun assigned c _ =>
          (if assigned then (readExpr c .default).weaken.map some else .done c none).andThen
            fun initial c _ =>
              (c.expect .semicolon).andThen fun _ c _ =>
                .done c
                  { name := name.value, ty, initial, isPublic, isStatic,
                    span := c.spanFrom start }

/-- Reads the members of a class, up to and including the brace that closes them. -/
def readMembers (c : Cursor) : Step 1 c (List Member) :=
  if c.kind = .closeCurly then (c.expect .closeCurly).map fun _ => []
  else
    let start := c.start
    (readVisibility c).optThen fun visibility c _ =>
      (c.accept .kwStatic).optThen fun isStatic c _ =>
        let isPublic := visibility.getD false
        (match c.kind with
          | .kwFn => (readFunction c start isPublic isStatic).map Member.method
          | .identifier => (readField c start isPublic isStatic).map Member.field
          | _ => .fail (c.expected "expected field or method declaration") c).andThen
            fun member c _ => (readMembers c).map fun members => member :: members
termination_by c.weight

/-- Reads a class whose marks began at `start` (`parse_class_decl`). -/
def readClass (c : Cursor) (start : Nat) (isPublic : Bool) : Step 1 c ClassDecl :=
  (c.expect .kwClass).andThen fun _ c _ =>
    (c.expectName "expected class name").andThen fun name c _ =>
      (c.expect .openCurly).andThen fun _ c _ =>
        (readMembers c).andThen fun members c _ =>
          .done c
            { name := name.value
              fields := members.filterMap fun | .field f => some f | .method _ => none
              methods := members.filterMap fun | .field _ => none | .method m => some m
              isPublic, nameSpan := name.span, span := c.spanFrom start }

/-- Reads one declaration (`parse_top_level`). -/
def readItem (c : Cursor) : Step 1 c Item :=
  if c.kind = .kwUsing then (readUsing c).map Item.directive
  else
    let start := c.start
    (readVisibility c).optThen fun visibility c _ =>
      let isPublic := visibility.getD true
      match c.kind with
      | .kwFn => (readFunction c start isPublic false).map Item.function
      | .kwClass => (readClass c start isPublic).map Item.classDecl
      | _ => .fail (c.expected "expected `using`, `fn` or `class` at top level") c

/-- Reads declarations up to the end of the text, and adds them to `d`. -/
def readItems (c : Cursor) (d : Declarations) : Step 0 c Declarations :=
  if c.kind = .eof then .done c d
  else ((readItem c).andThen fun item c _ => readItems c (d.add item)).weaken
termination_by c.weight

/-- The declarations of a source text, and the number of the next expression (`tokenize`, then
`parse`). Numbers are used up also by the expressions read before an error. -/
def parseSource (file text : String) (nextId : Nat) : Except Diagnostic Declarations × Nat :=
  match tokenize file text.toList with
  | .error d => (.error d, nextId)
  | .ok stream =>
    let x := readItems (.ofStream stream nextId) {}
    (x.outcome, x.next.nextId)

/-- The expression that a text is, when it starts `offset` bytes into the file
(`parse_expression_source`). -/
def parseExpr (file text : String) (offset nextId : Nat) : Except Diagnostic Expr × Nat :=
  match tokenize file text.toList with
  | .error d => (.error d, nextId)
  | .ok stream =>
    let c := Cursor.ofStream (stream.shift offset) nextId
    let x := (readExpr c .default).andThen fun e c _ =>
      (c.expectKind .eof c.unexpected).map fun _ => e
    (x.outcome, x.next.nextId)

end MgLang
