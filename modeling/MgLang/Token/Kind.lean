/-!
# Kinds of tokens

`TokenKind` lists the lexical categories, `TokenKind.keywords` the words that are reserved.
-/

namespace MgLang

/-- The category of a token. -/
inductive TokenKind where
  /-- The mark at the end of every text. -/
  | eof
  | int | float | string | interpolated | identifier
  | openBracket | closeBracket | openCurly | closeCurly | openParen | closeParen
  | assignment | equals | not | notEquals
  | less | lessEquals | greater | greaterEquals
  | or | and
  | dot | semicolon | colon | comma
  /-- The mark `->`. -/
  | arrow
  /-- The mark `=>`. -/
  | fatArrow
  | plus | dash | slash | star | percent
  | kwFn | kwLet | kwMut | kwReturn | kwIf | kwElse | kwWhile | kwFor | kwIn | kwMatch
  | kwClass | kwNew | kwThis | kwTrue | kwFalse | kwNone | kwSome
  | kwUsing | kwPub | kwPriv | kwStatic
  | intType | floatType | stringType | boolType | voidType
deriving DecidableEq, Repr, Inhabited

namespace TokenKind

/-- Every kind with the name it is shown by. -/
def names : List (TokenKind × String) :=
  [(eof, "EOF"), (int, "Int"), (float, "Float"), (string, "String"),
   (interpolated, "InterpolatedString"), (identifier, "Identifier"),
   (openBracket, "OpenBracket"), (closeBracket, "CloseBracket"),
   (openCurly, "OpenCurly"), (closeCurly, "CloseCurly"),
   (openParen, "OpenParen"), (closeParen, "CloseParen"),
   (assignment, "Assignment"), (equals, "Equals"), (not, "Not"), (notEquals, "NotEquals"),
   (less, "Less"), (lessEquals, "LessEquals"),
   (greater, "Greater"), (greaterEquals, "GreaterEquals"),
   (or, "Or"), (and, "And"),
   (dot, "Dot"), (semicolon, "Semicolon"), (colon, "Colon"), (comma, "Comma"),
   (arrow, "Arrow"), (fatArrow, "FatArrow"),
   (plus, "Plus"), (dash, "Dash"), (slash, "Slash"), (star, "Star"), (percent, "Percent"),
   (kwFn, "Fn"), (kwLet, "Let"), (kwMut, "Mut"), (kwReturn, "Return"), (kwIf, "If"),
   (kwElse, "Else"), (kwWhile, "While"), (kwFor, "For"), (kwIn, "In"), (kwMatch, "Match"),
   (kwClass, "Class"), (kwNew, "New"), (kwThis, "This"), (kwTrue, "True"), (kwFalse, "False"),
   (kwNone, "None"), (kwSome, "Some"), (kwUsing, "Using"), (kwPub, "Pub"), (kwPriv, "Priv"),
   (kwStatic, "Static"), (intType, "IntType"), (floatType, "FloatType"),
   (stringType, "StringType"), (boolType, "BoolType"), (voidType, "VoidType")]

/-- The name a kind is shown by. -/
def name (k : TokenKind) : String :=
  (names.lookup k).getD ""

/-- The kind of that name. -/
def ofName? (name : String) : Option TokenKind :=
  (names.find? fun e => e.2 == name).map (·.1)

/-- The reserved words (`RESERVED_LOOKUP`). -/
def keywords : List (String × TokenKind) :=
  [("fn", kwFn), ("let", kwLet), ("mut", kwMut), ("return", kwReturn), ("if", kwIf),
   ("else", kwElse), ("while", kwWhile), ("for", kwFor), ("in", kwIn), ("match", kwMatch),
   ("class", kwClass), ("new", kwNew), ("this", kwThis), ("true", kwTrue), ("false", kwFalse),
   ("None", kwNone), ("Some", kwSome), ("using", kwUsing), ("pub", kwPub), ("priv", kwPriv),
   ("static", kwStatic), ("int", intType), ("float", floatType), ("string", stringType),
   ("bool", boolType), ("void", voidType)]

/-- The kind of a word: its own if the word is reserved, an identifier otherwise
(`symbol_handler`). -/
def ofWord (word : String) : TokenKind :=
  (keywords.lookup word).getD identifier

/-- The words that name a type on their own (`is_primitive_type`). -/
def isPrimitiveType : TokenKind → Bool
  | intType | floatType | stringType | boolType | voidType => true
  | _ => false

end TokenKind

end MgLang
